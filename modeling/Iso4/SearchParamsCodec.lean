/-
The query codec of `URLSearchParams`, beside the `application/x-www-form-urlencoded` parser of the
WHATWG standard.

* `WebTypes.parse_toQuery` — a list of well-formed pairs is parsed back from its `toString`;
* `WebTypes.decodeQuery_eq_iff` — when `decodeQuery` gives what the standard does;
* `WebTypes.parse_eq_map` — the two parsers cut a string into the same names and values;
* `WebTypes.query_codec_iff` — the round trip, and when the constructor's list is the standard's.
-/
import Iso4.SearchParams
import Iso4.TextRoundTrip

namespace Iso4

open Ipc (Blob)
open Percent (encodeURIComponent decodeURIComponent component escapes toByte hasTriplet
  percentDecode byteOf hexDigit)

namespace WebTypes

/-! ### Encodings of strings -/

theorem encoding_append {v : UInt16} (hv : Utf16.isLow v = false) (us vs : Units) :
    encoding (us ++ v :: vs) = encoding us ++ encoding (v :: vs) := by
  rw [encoding, Utf16.scalars_append_cons hv, List.flatMap_append, encoding, encoding]

theorem isHigh_of_lt {u : UInt16} (h : u.toNat < 0x80) : Utf16.isHigh u = false :=
  Utf16.isHigh_of_plain (Percent.isSurrogate_of_lt h)

theorem isLow_of_lt {u : UInt16} (h : u.toNat < 0x80) : Utf16.isLow u = false :=
  Utf16.isLow_of_plain (Percent.isSurrogate_of_lt h)

theorem toNat_unit {u : UInt16} (hu : Utf16.isSurrogate u = false) :
    (Utf16.unit u).toNat = u.toNat := by
  have hlt : u.toNat < 65536 := u.toNat_lt
  have hne : ¬ (0xD800 ≤ u.toNat ∧ u.toNat ≤ 0xDFFF) := by
    rw [← Utf16.isSurrogate_iff, hu]
    simp
  rw [Utf16.unit_plain hu]
  exact Utf8.toNat_ofNat_of_valid (by omega)

theorem encodeChar_unit {u : UInt16} (h : u.toNat < 0x80) :
    String.utf8EncodeChar (Utf16.unit u) = [toByte u] := by
  have hnat := toNat_unit (Percent.isSurrogate_of_lt h)
  rw [Utf8.encode_ascii (by omega), hnat]
  rfl

theorem encoding_cons {u : UInt16} (h : u.toNat < 0x80) (us : Units) :
    encoding (u :: us) = toByte u :: encoding us := by
  rw [encoding, Utf16.scalars_cons (isHigh_of_lt h), List.flatMap_cons, encodeChar_unit h, encoding]
  rfl

theorem encoding_append_cons {u : UInt16} (h : u.toNat < 0x80) (us vs : Units) :
    encoding (us ++ u :: vs) = encoding us ++ toByte u :: encoding vs := by
  rw [encoding_append (isLow_of_lt h), encoding_cons h]

/-- A string is the units of its first character and the rest. -/
theorem encoding_cases (u : UInt16) (us : Units) :
    (∃ v vs, us = v :: vs ∧ Utf16.isHigh u = true ∧ Utf16.isLow v = true ∧
      encoding (u :: us) = String.utf8EncodeChar (Utf16.pair u v) ++ encoding vs ∧
      Utf16.scalars (u :: us) = Utf16.pair u v :: Utf16.scalars vs) ∨
    (encoding (u :: us) = String.utf8EncodeChar (Utf16.unit u) ++ encoding us ∧
      Utf16.scalars (u :: us) = Utf16.unit u :: Utf16.scalars us) := by
  cases us with
  | nil => exact Or.inr ⟨rfl, rfl⟩
  | cons v vs =>
    by_cases hpair : (Utf16.isHigh u && Utf16.isLow v) = true
    · obtain ⟨hu, hv⟩ := Bool.and_eq_true_iff.mp hpair
      have hscalars := Utf16.scalars_pair hu hv vs
      exact Or.inl ⟨v, vs, rfl, hu, hv, by rw [encoding, hscalars]; rfl, hscalars⟩
    · have hscalars := Utf16.scalars_unpaired (Bool.eq_false_iff.mpr hpair) vs
      exact Or.inr ⟨by rw [encoding, hscalars]; rfl, hscalars⟩

/-- A unit whose character has a byte below 0x80 in its encoding is that byte. -/
theorem eq_of_mem_unit {u : UInt16} {b : UInt8} (h : b ∈ String.utf8EncodeChar (Utf16.unit u))
    (hb : b.toNat < 0x80) : u.toNat = b.toNat := by
  obtain ⟨hc, -⟩ := Utf8.encode_of_ascii_mem h hb
  cases hu : Utf16.isSurrogate u with
  | false => rw [← hc, toNat_unit hu]
  | true =>
    rw [Utf16.unit, if_pos hu] at hc
    have : (Utf16.replacement).toNat = 0xFFFD := by decide
    omega

theorem not_mem_pair {u v : UInt16} {b : UInt8} (hu : Utf16.isHigh u = true)
    (hv : Utf16.isLow v = true) (hb : b.toNat < 0x80) :
    b ∉ String.utf8EncodeChar (Utf16.pair u v) := by
  intro h
  obtain ⟨hc, -⟩ := Utf8.encode_of_ascii_mem h hb
  have hpair := Utf16.toNat_pair hu hv
  omega

/-- A byte below 0x80 stands for itself. -/
theorem mem_of_mem_encoding {us : Units} {b : UInt8} (h : b ∈ encoding us) (hb : b.toNat < 0x80) :
    UInt16.ofNat b.toNat ∈ us := by
  induction us using Utf16.scalars.induct with
  | case1 => simp [encoding, Utf16.scalars] at h
  | case2 u =>
    rw [encoding, Utf16.scalars, List.flatMap_singleton] at h
    rw [← eq_of_mem_unit h hb, UInt16.ofNat_toNat]
    exact List.mem_singleton_self u
  | case3 u v us hpair ih =>
    obtain ⟨hu, hv⟩ := Bool.and_eq_true_iff.mp hpair
    rw [encoding, Utf16.scalars_pair hu hv, List.flatMap_cons, List.mem_append] at h
    obtain h | h := h
    · exact absurd h (not_mem_pair hu hv hb)
    · exact List.mem_cons_of_mem _ (List.mem_cons_of_mem _ (ih h))
  | case4 u v us hpair ih =>
    rw [encoding, Utf16.scalars_unpaired (Bool.eq_false_iff.mpr hpair), List.flatMap_cons,
      List.mem_append] at h
    obtain h | h := h
    · rw [← eq_of_mem_unit h hb, UInt16.ofNat_toNat]
      exact List.mem_cons_self
    · exact List.mem_cons_of_mem _ (ih h)

theorem encoding_eq_nil {us : Units} (h : encoding us = []) : us = [] := by
  cases us with
  | nil => rfl
  | cons u us =>
    obtain ⟨v, vs, -, -, -, hencoding, -⟩ | ⟨hencoding, -⟩ := encoding_cases u us
    · rw [hencoding, List.append_eq_nil_iff] at h
      exact absurd h.1 (Utf8.encode_ne_nil _)
    · rw [hencoding, List.append_eq_nil_iff] at h
      exact absurd h.1 (Utf8.encode_ne_nil _)

/-- A byte below 0x80 at the head of the encoding is the unit at the head. -/
theorem head_of_encoding {us : Units} {b : UInt8} {bs : Blob} (h : encoding us = b :: bs)
    (hb : b.toNat < 0x80) : ∃ u vs, us = u :: vs ∧ u.toNat = b.toNat ∧ encoding vs = bs := by
  cases us with
  | nil => cases h
  | cons u us =>
    obtain ⟨v, vs, rfl, hu, hv, hencoding, -⟩ | ⟨hencoding, -⟩ := encoding_cases u us
    · exfalso
      rw [hencoding] at h
      cases hc : String.utf8EncodeChar (Utf16.pair u v) with
      | nil => exact Utf8.encode_ne_nil _ hc
      | cons b' bs' =>
        rw [hc, List.cons_append] at h
        obtain ⟨rfl, -⟩ := List.cons.inj h
        exact not_mem_pair hu hv hb (by rw [hc]; exact List.mem_cons_self)
    · rw [hencoding] at h
      cases hc : String.utf8EncodeChar (Utf16.unit u) with
      | nil => exact absurd hc (Utf8.encode_ne_nil _)
      | cons b' bs' =>
        rw [hc, List.cons_append] at h
        obtain ⟨rfl, htail⟩ := List.cons.inj h
        have hmem : b' ∈ String.utf8EncodeChar (Utf16.unit u) := by
          rw [hc]
          exact List.mem_cons_self
        have hu := eq_of_mem_unit hmem hb
        rw [encodeChar_unit (by omega)] at hc
        obtain ⟨-, rfl⟩ := List.cons.inj hc
        exact ⟨u, us, rfl, hu, htail⟩

/-! ### One name or value -/

theorem decode_encodeChar (c : Char) (bytes : Blob) :
    Ipc.Utf8State.idle.decode (String.utf8EncodeChar c ++ bytes) =
      c :: Ipc.Utf8State.idle.decode bytes := by
  rw [Ipc.Utf8State.decode_eq, Ipc.Utf8State.decode_eq, Utf8.pieces_encode, List.map_cons]
  rfl

theorem decode_encoding (us : Units) :
    Ipc.Utf8State.idle.decode (encoding us) = Utf16.scalars us := by
  rw [encoding]
  induction Utf16.scalars us with
  | nil => rfl
  | cons c cs ih => rw [List.flatMap_cons, decode_encodeChar, ih]

theorem percent_not_mem {u : UInt16} (h : u ≠ 0x25) :
    (0x25 : UInt8) ∉ String.utf8EncodeChar (Utf16.unit u) := by
  intro hmem
  have hu := eq_of_mem_unit hmem (by decide)
  exact h (UInt16.toNat_inj.mp hu)

/-- The standard's text of a name or value, in which pluses are spaces already. -/
def whatwgText (bytes : Blob) : Units :=
  (Ipc.Utf8State.idle.decode (percentDecode bytes)).flatMap Utf16.units

theorem whatwgText_encodeChar {c : Char} (h : (0x25 : UInt8) ∉ String.utf8EncodeChar c)
    (bytes : Blob) :
    whatwgText (String.utf8EncodeChar c ++ bytes) = Utf16.units c ++ whatwgText bytes := by
  rw [whatwgText, Percent.percentDecode_append h, decode_encodeChar, List.flatMap_cons, whatwgText]

theorem spells_ascii {bytes : Blob} {es : Units} (h : Percent.Spells bytes es) :
    ∀ u ∈ es, u.toNat < 0x80 := by
  induction h with
  | nil => simp
  | @cons b bytes x y us hb hs ih =>
    obtain ⟨hx, hy⟩ := Percent.byteOf_range hb
    intro u hu
    simp only [List.mem_cons] at hu
    obtain rfl | rfl | rfl | hu := hu
    · decide
    · omega
    · omega
    · exact ih u hu

theorem encoding_ascii {es : Units} (h : ∀ u ∈ es, u.toNat < 0x80) (us : Units) :
    encoding (es ++ us) = es.map toByte ++ encoding us := by
  induction es with
  | nil => rfl
  | cons u es ih =>
    rw [List.cons_append, encoding_cons (h u List.mem_cons_self),
      ih fun v hv => h v (List.mem_cons_of_mem _ hv)]
    rfl

theorem isWellFormed_ascii {es : Units} (h : ∀ u ∈ es, u.toNat < 0x80) (us : Units) :
    Utf16.isWellFormed (es ++ us) = Utf16.isWellFormed us := by
  induction es with
  | nil => rfl
  | cons u es ih =>
    rw [List.cons_append, Utf16.isWellFormed_plain
      (Percent.isSurrogate_of_lt (h u List.mem_cons_self)),
      ih fun v hv => h v (List.mem_cons_of_mem _ hv)]

theorem whatwgText_spells {c : Char} {es : Units} (h : Percent.Spells (String.utf8EncodeChar c) es)
    (us : Units) : whatwgText (encoding (es ++ us)) = Utf16.units c ++ whatwgText (encoding us) := by
  rw [encoding_ascii (spells_ascii h), whatwgText, Percent.percentDecode_spells h,
    decode_encodeChar, List.flatMap_cons, whatwgText]

theorem ne_percent_of_low {v : UInt16} (hv : Utf16.isLow v = true) : v ≠ 0x25 := by
  rintro rfl
  simp [Utf16.isLow] at hv

/-- What `decodeURIComponent` accepts it decodes as the standard does. -/
theorem whatwgText_of_decode {us out : Units} (hwf : Utf16.isWellFormed us = true)
    (h : decodeURIComponent us = some out) : whatwgText (encoding us) = out := by
  induction hn : us.length using Nat.strongRecOn generalizing us out with
  | ind n ih =>
    cases us with
    | nil =>
      rw [Percent.decode_nil] at h
      cases h
      rfl
    | cons u us =>
      rw [List.length_cons] at hn
      obtain ⟨hu, out', hout, rfl⟩ | ⟨c, es, us', out', heq, hes, hlt, hout, rfl⟩ :=
        Percent.decode_cases h
      · cases hsur : Utf16.isSurrogate u with
        | false =>
          rw [Utf16.isWellFormed_plain hsur] at hwf
          obtain ⟨v, vs, -, hhigh, -⟩ | ⟨hencoding, -⟩ := encoding_cases u us
          · rw [Utf16.isHigh_of_plain hsur] at hhigh
            cases hhigh
          · rw [hencoding, whatwgText_encodeChar (percent_not_mem hu),
              Utf16.units_unit hsur, ih us.length (by omega) hwf hout rfl]
            rfl
        | true =>
          obtain ⟨v, vs, rfl, hhigh, hlow, hwf'⟩ := Utf16.pair_of_isWellFormed hwf hsur
          have hlit := Percent.decode_literal (ne_percent_of_low hlow) vs
          rw [hlit] at hout
          obtain ⟨out'', hout', rfl⟩ := Option.map_eq_some_iff.mp hout
          have hencoding : encoding (u :: v :: vs) =
              String.utf8EncodeChar (Utf16.pair u v) ++ encoding vs := by
            rw [encoding, Utf16.scalars_pair hhigh hlow]
            rfl
          rw [hencoding, whatwgText_encodeChar (not_mem_pair hhigh hlow (by decide)),
            Utf16.units_pair hhigh hlow,
            ih vs.length (by rw [List.length_cons] at hn; omega) hwf' hout' rfl]
          rfl
      · rw [heq, isWellFormed_ascii (spells_ascii hes)] at hwf
        rw [List.length_cons] at hlt
        rw [heq, whatwgText_spells hes, ih us'.length (by omega) hwf hout rfl]

theorem not_low_of_units {c : Char} {v : UInt16} {vs us : Units}
    (h : Utf16.units c ++ us = v :: vs) : Utf16.isLow v = false := by
  have hvalid := Utf8.valid_toNat c
  have hlow : ∀ n, n < 65536 → (n < 0xDC00 ∨ 0xDFFF < n) → UInt16.ofNat n = v →
      Utf16.isLow v = false := by
    rintro n hlt hn rfl
    rw [← Bool.not_eq_true, Utf16.isLow_iff, Utf16.toNat_ofNat_of_lt hlt]
    omega
  unfold Utf16.units at h
  split at h
  · exact hlow _ (by omega) (by omega) (List.cons.inj h).1
  · exact hlow _ (by omega) (by omega) (List.cons.inj h).1

/-- `decodeURIComponent` mends no unpaired surrogate. -/
theorem isWellFormed_of_decode {us out : Units} (h : decodeURIComponent us = some out)
    (hwf : Utf16.isWellFormed out = true) : Utf16.isWellFormed us = true := by
  induction hn : us.length using Nat.strongRecOn generalizing us out with
  | ind n ih =>
    cases us with
    | nil => rfl
    | cons u us =>
      rw [List.length_cons] at hn
      obtain ⟨hu, out', hout, rfl⟩ | ⟨c, es, us', out', heq, hes, hlt, hout, rfl⟩ :=
        Percent.decode_cases h
      · cases hsur : Utf16.isSurrogate u with
        | false =>
          rw [Utf16.isWellFormed_plain hsur] at hwf ⊢
          exact ih us.length (by omega) hout hwf rfl
        | true =>
          obtain ⟨v, vs, rfl, hhigh, hlow, hwf'⟩ := Utf16.pair_of_isWellFormed hwf hsur
          cases us with
          | nil =>
            rw [Percent.decode_nil] at hout
            cases hout
          | cons w ws =>
            obtain ⟨-, out'', hout', hcons⟩ | ⟨c, es, ws', out'', -, -, -, -, hcons⟩ :=
              Percent.decode_cases hout
            · obtain ⟨rfl, rfl⟩ := List.cons.inj hcons
              rw [Utf16.isWellFormed_pair hhigh hlow]
              exact ih ws.length (by rw [List.length_cons] at hn; omega) hout' hwf' rfl
            · rw [not_low_of_units hcons.symm] at hlow
              cases hlow
      · rw [Utf16.isWellFormed_units] at hwf
        rw [List.length_cons] at hlt
        rw [heq, isWellFormed_ascii (spells_ascii hes)]
        exact ih us'.length (by omega) hout hwf rfl

/-! ### Triplets -/

/-- The two bytes after a percent sign are digits just when the two units are. -/
theorem percentDecode_percent (us : Units) :
    (∃ x y vs b, us = x :: y :: vs ∧ byteOf x.toNat y.toNat = some b ∧
      percentDecode (0x25 :: encoding us) = b :: percentDecode (encoding vs)) ∨
    (percentDecode (0x25 :: encoding us) = 0x25 :: percentDecode (encoding us) ∧
      hasTriplet (0x25 :: us) = hasTriplet us) := by
  by_cases hex : ∃ x y vs b, us = x :: y :: vs ∧ byteOf x.toNat y.toNat = some b
  · obtain ⟨x, y, vs, b, rfl, hb⟩ := hex
    obtain ⟨hx, hy⟩ := Percent.byteOf_range hb
    refine Or.inl ⟨x, y, vs, b, rfl, hb, ?_⟩
    rw [encoding_cons (by omega), encoding_cons (by omega), percentDecode, if_pos rfl,
      Percent.toNat_toByte (by omega), Percent.toNat_toByte (by omega), hb]
  · refine Or.inr ⟨?_, ?_⟩
    · cases hbytes : encoding us with
      | nil => rfl
      | cons b bs =>
        cases bs with
        | nil => rfl
        | cons b' bs =>
          rw [percentDecode, if_pos rfl]
          cases hb : byteOf b.toNat b'.toNat with
          | none => rfl
          | some v =>
            exfalso
            obtain ⟨hx, hy⟩ := Percent.byteOf_range hb
            obtain ⟨x, vs, rfl, hx', hvs⟩ := head_of_encoding hbytes (by omega)
            obtain ⟨y, ws, rfl, hy', -⟩ := head_of_encoding hvs (by omega)
            exact hex ⟨x, y, ws, v, rfl, by rw [hx', hy', hb]⟩
    · cases us with
      | nil => rfl
      | cons x us =>
        cases us with
        | nil => rfl
        | cons y vs =>
          rw [hasTriplet]
          cases hb : byteOf x.toNat y.toNat with
          | none => simp
          | some b => exact absurd ⟨x, y, vs, b, rfl, hb⟩ hex

/-- Percent-decoding leaves a piece for each character at most, and fewer where there is a
triplet; and where there is none it changes nothing. -/
theorem length_pieces_percentDecode (us : Units) :
    (Utf8.pieces (percentDecode (encoding us))).length ≤ (Utf16.scalars us).length ∧
      ((Utf16.scalars us).length ≤ (Utf8.pieces (percentDecode (encoding us))).length →
        hasTriplet us = false) ∧
      (hasTriplet us = false → percentDecode (encoding us) = encoding us) := by
  induction hn : us.length using Nat.strongRecOn generalizing us with
  | ind n ih =>
    cases us with
    | nil =>
      refine ⟨?_, fun _ => rfl, fun _ => rfl⟩
      show (Utf8.pieces []).length ≤ 0
      rw [Utf8.pieces_nil]
      exact Nat.le_refl 0
    | cons u us =>
      rw [List.length_cons] at hn
      by_cases hu : u = 0x25
      · subst hu
        have hpercent : toByte 0x25 = 0x25 := by decide
        have hscalars : Utf16.scalars (0x25 :: us) = Utf16.unit 0x25 :: Utf16.scalars us :=
          Utf16.scalars_cons rfl us
        rw [encoding_cons (by decide), hpercent, hscalars, List.length_cons]
        obtain ⟨x, y, vs, b, rfl, hb, hdecode⟩ | ⟨hdecode, htriplet⟩ :=
          percentDecode_percent us
        · obtain ⟨hx, hy⟩ := Percent.byteOf_range hb
          obtain ⟨hle, -⟩ := ih vs.length
            (by rw [List.length_cons, List.length_cons] at hn; omega) vs rfl
          have hone := Utf8.length_pieces_cons b (percentDecode (encoding vs))
          have hthree : (Utf16.scalars (x :: y :: vs)).length = (Utf16.scalars vs).length + 2 := by
            rw [Utf16.scalars_cons (isHigh_of_lt (by omega)),
              Utf16.scalars_cons (isHigh_of_lt (by omega))]
            rfl
          rw [hdecode]
          refine ⟨by omega, fun hge => by omega, ?_⟩
          intro hnone
          rw [hasTriplet, hb] at hnone
          simp at hnone
        · obtain ⟨hle, hnone, hsame⟩ := ih us.length (by omega) us rfl
          have hone := Utf8.length_pieces_cons 0x25 (percentDecode (encoding us))
          rw [hdecode, htriplet]
          exact ⟨by omega, fun hge => hnone (by omega), fun h => by rw [hsame h]⟩
      · obtain ⟨v, vs, rfl, hhigh, hlow, hencoding, hscalars⟩ | ⟨hencoding, hscalars⟩ :=
          encoding_cases u us
        · obtain ⟨hle, hnone, hsame⟩ := ih vs.length
            (by rw [List.length_cons] at hn; omega) vs rfl
          rw [hencoding, hscalars, Percent.percentDecode_append
            (not_mem_pair hhigh hlow (by decide)), Utf8.pieces_encode, List.length_cons,
            List.length_cons, Percent.hasTriplet_cons hu,
            Percent.hasTriplet_cons (ne_percent_of_low hlow)]
          exact ⟨by omega, fun hge => hnone (by omega), fun h => by rw [hsame h]⟩
        · obtain ⟨hle, hnone, hsame⟩ := ih us.length (by omega) us rfl
          rw [hencoding, hscalars, Percent.percentDecode_append (percent_not_mem hu),
            Utf8.pieces_encode, List.length_cons, List.length_cons, Percent.hasTriplet_cons hu]
          exact ⟨by omega, fun hge => hnone (by omega), fun h => by rw [hsame h]⟩

/-- A name or value, with spaces for its pluses, on which `decodeURIComponent` does what the
standard does: there is no unpaired surrogate, and it accepts the text or there is nothing to
decode. -/
def DecodedAlike (us : Units) : Prop :=
  Utf16.isWellFormed us = true ∧ ((decodeURIComponent us).isSome = true ∨ hasTriplet us = false)

theorem decoded_eq_iff (us : Units) :
    (decodeURIComponent us).getD us = whatwgText (encoding us) ↔ DecodedAlike us := by
  have hwhatwg : Utf16.isWellFormed (whatwgText (encoding us)) = true :=
    Utf16.isWellFormed_flatMap _
  cases hdecode : decodeURIComponent us with
  | some out =>
    rw [Option.getD_some]
    constructor
    · intro h
      rw [← h] at hwhatwg
      exact ⟨isWellFormed_of_decode hdecode hwhatwg, Or.inl (by rw [hdecode]; rfl)⟩
    · rintro ⟨hwf, -⟩
      exact (whatwgText_of_decode hwf hdecode).symm
  | none =>
    rw [Option.getD_none]
    obtain ⟨-, hnone, hsame⟩ := length_pieces_percentDecode us
    constructor
    · intro h
      refine ⟨by rw [h]; exact hwhatwg, Or.inr (hnone ?_)⟩
      have hlen := congrArg (fun x => (Utf16.scalars x).length) h
      simp only [whatwgText, Utf16.scalars_flatMap, Ipc.Utf8State.decode_eq,
        List.length_map] at hlen
      exact hlen.le
    · rintro ⟨hwf, hsome | htriplet⟩
      · rw [hdecode] at hsome
        cases hsome
      · rw [whatwgText, hsame htriplet, decode_encoding, Utf16.flatMap_scalars,
          Utf16.toWellFormed_eq hwf]

/-! ### The parts of a query -/

theorem not_mem_encoding {us : Units} {u : UInt16} (hu : u.toNat < 0x80) (h : u ∉ us) :
    toByte u ∉ encoding us := by
  intro hmem
  have hnat := Percent.toNat_toByte hu
  have hback := mem_of_mem_encoding hmem (by omega)
  rw [hnat, UInt16.ofNat_toNat] at hback
  exact h hback

theorem splitOn_encoding (us : Units) :
    (encoding us).splitOn 0x26 = (us.splitOn 0x26).map encoding := by
  have hbyte : (0x26 : UInt8) = toByte 0x26 := by decide
  induction hn : us.length using Nat.strongRecOn generalizing us with
  | ind n ih =>
    by_cases hmem : (0x26 : UInt16) ∈ us
    · obtain ⟨as, bs, rfl, hnot⟩ := List.eq_append_cons_of_mem hmem
      have hnot' : (0x26 : UInt8) ∉ encoding as := hbyte ▸ not_mem_encoding (by decide) hnot
      rw [encoding_append_cons (by decide), ← hbyte,
        List.splitOn_append_cons_self_of_not_mem hnot,
        List.splitOn_append_cons_self_of_not_mem hnot', List.map_cons, ih bs.length ?_ bs rfl]
      rw [← hn, List.length_append, List.length_cons]
      omega
    · have hnot' : (0x26 : UInt8) ∉ encoding us := hbyte ▸ not_mem_encoding (by decide) hmem
      rw [List.splitOn_eq_singleton hmem, List.splitOn_eq_singleton hnot', List.map_singleton]

theorem plussed_eq_self {us : Units} (h : 0x2B ∉ us) : plussed us = us := by
  have hsame : plussed us = us.map id := by
    refine List.map_congr_left fun x hx => if_neg ?_
    rintro rfl
    exact h hx
  rw [hsame, List.map_id]

theorem encoding_plussed (us : Units) :
    Percent.plusToSpace (encoding us) = encoding (plussed us) := by
  have hplus : (0x2B : UInt8) = toByte 0x2B := by decide
  have hspace : (0x20 : UInt8) = toByte 0x20 := by decide
  induction hn : us.length using Nat.strongRecOn generalizing us with
  | ind n ih =>
    by_cases hmem : (0x2B : UInt16) ∈ us
    · obtain ⟨as, bs, rfl, hnot⟩ := List.eq_append_cons_of_mem hmem
      have hlen : (as ++ 0x2B :: bs).length = as.length + bs.length + 1 := by
        rw [List.length_append, List.length_cons]
        omega
      have has := ih as.length (by omega) as rfl
      have hbs := ih bs.length (by omega) bs rfl
      have hcut : plussed (as ++ 0x2B :: bs) = plussed as ++ 0x20 :: plussed bs := by
        rw [plussed, List.map_append, List.map_cons, if_pos rfl, plussed, plussed]
      rw [hcut, encoding_append_cons (by decide), encoding_append_cons (by decide), ← hplus,
        ← hspace, ← has, ← hbs, Percent.plusToSpace, List.map_append, List.map_cons, if_pos rfl,
        Percent.plusToSpace, Percent.plusToSpace]
    · have hnot : (0x2B : UInt8) ∉ encoding us := hplus ▸ not_mem_encoding (by decide) hmem
      have hsame' : Percent.plusToSpace (encoding us) = (encoding us).map id := by
        refine List.map_congr_left fun x hx => if_neg ?_
        rintro rfl
        exact hnot hx
      rw [plussed_eq_self hmem, hsame', List.map_id]

theorem rawPair_cut {k : Units} (h : 0x3D ∉ k) (v : Units) : rawPair (k ++ 0x3D :: v) = (k, v) := by
  have hidx : (k ++ 0x3D :: v).idxOf 0x3D = k.length := by
    rw [List.idxOf_append, if_neg h, List.idxOf_cons_self, Nat.zero_add]
  have hne : k.length ≠ (k ++ 0x3D :: v).length := by
    rw [List.length_append, List.length_cons]
    omega
  simp only [rawPair, hidx, if_neg hne, List.take_left]
  rw [List.drop_append, List.drop_eq_nil_of_le (Nat.le_succ _), Nat.add_sub_cancel_left]
  rfl

theorem rawPair_uncut {part : Units} (h : 0x3D ∉ part) : rawPair part = (part, []) := by
  simp only [rawPair, List.idxOf_eq_length h, if_true]

theorem formPair_cut {a : Blob} (h : (0x3D : UInt8) ∉ a) (b : Blob) :
    Percent.formPair (a ++ 0x3D :: b) =
      (percentDecode (Percent.plusToSpace a), percentDecode (Percent.plusToSpace b)) := by
  have hall : ∀ x ∈ a, decide (x ≠ 0x3D) = true := by
    intro x hx
    rw [decide_eq_true_eq]
    rintro rfl
    exact h hx
  rw [Percent.formPair, List.takeWhile_append_of_pos hall, List.dropWhile_append_of_pos hall]
  simp

theorem formPair_uncut {a : Blob} (h : (0x3D : UInt8) ∉ a) :
    Percent.formPair a = (percentDecode (Percent.plusToSpace a), []) := by
  have hall : ∀ x ∈ a, decide (x ≠ 0x3D) = true := by
    intro x hx
    rw [decide_eq_true_eq]
    rintro rfl
    exact h hx
  have hcut := @List.takeWhile_append_of_pos _ _ a [] hall
  have hcut' := @List.dropWhile_append_of_pos _ _ a [] hall
  rw [List.append_nil] at hcut hcut'
  rw [Percent.formPair, hcut, hcut']
  simp [Percent.plusToSpace, percentDecode]

/-- Both parsers cut a part at the same place. -/
theorem formPair_encoding (part : Units) :
    Percent.formPair (encoding part) =
      (percentDecode (encoding (plussed (rawPair part).1)),
        percentDecode (encoding (plussed (rawPair part).2))) := by
  have hbyte : (0x3D : UInt8) = toByte 0x3D := by decide
  by_cases hmem : (0x3D : UInt16) ∈ part
  · obtain ⟨k, v, rfl, hnot⟩ := List.eq_append_cons_of_mem hmem
    have hnot' : (0x3D : UInt8) ∉ encoding k := hbyte ▸ not_mem_encoding (by decide) hnot
    rw [rawPair_cut hnot, encoding_append_cons (by decide), ← hbyte, formPair_cut hnot',
      encoding_plussed, encoding_plussed]
  · have hnot' : (0x3D : UInt8) ∉ encoding part := hbyte ▸ not_mem_encoding (by decide) hmem
    rw [rawPair_uncut hmem, formPair_uncut hnot', encoding_plussed]
    rfl

theorem formParse_encoding (us : Units) :
    Percent.formParse (encoding us) = (queryParts us).map fun part =>
      (percentDecode (encoding (plussed (rawPair part).1)),
        percentDecode (encoding (plussed (rawPair part).2))) := by
  have hparts : ((us.splitOn 0x26).map encoding).filter (fun part => decide (part ≠ [])) =
      (queryParts us).map encoding := by
    rw [List.filter_map, queryParts]
    refine congrArg _ (List.filter_congr fun part _ => ?_)
    rw [Function.comp_apply, decide_eq_decide]
    exact not_congr ⟨encoding_eq_nil, fun h => by rw [h]; rfl⟩
  rw [Percent.formParse, splitOn_encoding, hparts, List.map_map]
  exact List.map_congr_left fun part _ => formPair_encoding part

/-- The list of the standard for a string, less one question mark at its start. -/
def whatwgParse (input : Units) : Pairs :=
  (Percent.formParse (encoding (stripMark input))).map fun kv =>
    ((Ipc.Utf8State.idle.decode kv.1).flatMap Utf16.units,
      (Ipc.Utf8State.idle.decode kv.2).flatMap Utf16.units)

theorem parse_eq_map (input : Units) :
    parse input = (queryParts (stripMark input)).map fun part =>
      (decodeQuery (rawPair part).1, decodeQuery (rawPair part).2) := by
  unfold parse
  split
  · next h =>
    rw [h]
    rfl
  · rfl

/-- Each name and value is one that `decodeURIComponent` decodes as the standard does. -/
def QueryAlike (input : Units) : Prop :=
  ∀ part ∈ queryParts (stripMark input),
    DecodedAlike (plussed (rawPair part).1) ∧ DecodedAlike (plussed (rawPair part).2)

theorem parse_eq_whatwg_iff (input : Units) :
    parse input = whatwgParse input ↔ QueryAlike input := by
  rw [parse_eq_map, whatwgParse, formParse_encoding, List.map_map, List.map_inj_left]
  refine forall₂_congr fun part _ => ?_
  rw [Prod.mk.injEq]
  exact and_congr (decoded_eq_iff _) (decoded_eq_iff _)

/-! ### The round trip -/

/-- Letters, digits, `*-._+%`. -/
def isQueryUnit (u : UInt16) : Bool :=
  let c := u.toNat
  (0x30 ≤ c && c ≤ 0x39) || (0x41 ≤ c && c ≤ 0x5A) || (0x61 ≤ c && c ≤ 0x7A) ||
    [0x2A, 0x2D, 0x2E, 0x5F, 0x2B, 0x25].contains c

/-- A character that `encodeQueryComponent` leaves as it is. -/
def isSafe (c : Char) : Bool :=
  Percent.unreserved (UInt16.ofNat c.toNat) && c.toNat < 0x80 &&
    !([0x21, 0x27, 0x28, 0x29, 0x7E].contains c.toNat)

/-- A character as `encodeQueryComponent` writes it. -/
def queryChar (c : Char) : Units :=
  if c.toNat = 0x20 then [0x2B]
  else if isSafe c then [UInt16.ofNat c.toNat]
  else escapes (String.utf8EncodeChar c)

theorem mem_escapes {bytes : Blob} {u : UInt16} (h : u ∈ escapes bytes) :
    u.toNat = 0x25 ∨ 0x30 ≤ u.toNat ∧ u.toNat ≤ 0x39 ∨ 0x41 ≤ u.toNat ∧ u.toNat ≤ 0x46 := by
  obtain ⟨b, -, hb⟩ := List.mem_flatMap.mp h
  have hlt : b.toNat < 256 := b.toNat_lt
  have hdigit : ∀ {n}, n < 16 → u = UInt16.ofNat (hexDigit n) →
      0x30 ≤ u.toNat ∧ u.toNat ≤ 0x39 ∨ 0x41 ≤ u.toNat ∧ u.toNat ≤ 0x46 := by
    rintro n hn rfl
    have hrange := Percent.hexDigit_range hn
    rw [Percent.toNat_hexDigit hn]
    omega
  simp only [Percent.escape, List.mem_cons, List.not_mem_nil, or_false] at hb
  obtain rfl | hu | hu := hb
  · exact Or.inl rfl
  · exact Or.inr (hdigit (by omega) hu)
  · exact Or.inr (hdigit (by omega) hu)

theorem flatMap_escapeMark {us : Units}
    (h : ∀ u ∈ us, [0x21, 0x27, 0x28, 0x29, 0x7E].contains u.toNat = false) :
    us.flatMap escapeMark = us := by
  induction us with
  | nil => rfl
  | cons u us ih =>
    rw [List.flatMap_cons, escapeMark, if_neg (by rw [h u List.mem_cons_self]; simp),
      ih fun v hv => h v (List.mem_cons_of_mem _ hv)]
    rfl

/-- A character after both escapings. -/
theorem component_marked (c : Char) :
    (component c).flatMap escapeMark =
      if isSafe c then [UInt16.ofNat c.toNat] else escapes (String.utf8EncodeChar c) := by
  by_cases hres : (Percent.unreserved (UInt16.ofNat c.toNat) && decide (c.toNat < 0x80)) = true
  · have hlt : c.toNat < 0x80 := of_decide_eq_true (Bool.and_eq_true_iff.mp hres).2
    have hnat : (UInt16.ofNat c.toNat).toNat = c.toNat := Utf16.toNat_ofNat_of_lt (by omega)
    rw [component, if_pos hres, List.flatMap_singleton, escapeMark, hnat]
    by_cases hmark : [0x21, 0x27, 0x28, 0x29, 0x7E].contains c.toNat = true
    · have hbyte : (UInt8.ofNat c.toNat).toNat = c.toNat := Utf8.toNat_ofNat_of_lt (by omega)
      rw [if_pos hmark, isSafe, hmark, Bool.not_true, Bool.and_false, if_neg Bool.false_ne_true,
        Utf8.encode_ascii hlt]
      show _ = Percent.escape (UInt8.ofNat c.toNat) ++ []
      rw [List.append_nil, Percent.escape, hbyte]
    · rw [if_neg hmark, isSafe, hres, Bool.true_and, Bool.eq_false_iff.mpr hmark, Bool.not_false,
        if_pos rfl]
  · rw [component, if_neg hres, isSafe, Bool.eq_false_iff.mpr hres, Bool.false_and,
      if_neg Bool.false_ne_true]
    refine flatMap_escapeMark ?_
    intro u hu
    have hrange := mem_escapes hu
    rw [← Bool.not_eq_true, List.contains_iff_mem]
    simp only [List.mem_cons, List.not_mem_nil, or_false]
    omega

theorem plusSpaces_cons {u : UInt16} (h : u ≠ 0x25) (us : Units) :
    plusSpaces (u :: us) = u :: plusSpaces us := by
  match us with
  | [] => rfl
  | [v] => rfl
  | v :: w :: us => rw [plusSpaces, if_neg fun hu => h hu.1]

theorem hexDigit_ne_percent {n : Nat} (h : n < 16) : UInt16.ofNat (hexDigit n) ≠ 0x25 := by
  intro heq
  have hnat := Percent.toNat_hexDigit h
  have hrange := Percent.hexDigit_range h
  rw [heq] at hnat
  have : (0x25 : UInt16).toNat = 0x25 := rfl
  omega

theorem plusSpaces_escapes {bytes : Blob} (h : (0x20 : UInt8) ∉ bytes) (us : Units) :
    plusSpaces (escapes bytes ++ us) = escapes bytes ++ plusSpaces us := by
  induction bytes with
  | nil => rfl
  | cons b bytes ih =>
    rw [List.mem_cons, not_or] at h
    have hlt : b.toNat < 256 := b.toNat_lt
    have hne : ¬ ((0x25 : UInt16) = 0x25 ∧ UInt16.ofNat (hexDigit (b.toNat / 16)) = 0x32 ∧
        UInt16.ofNat (hexDigit (b.toNat % 16)) = 0x30) := by
      rintro ⟨-, hx, hy⟩
      have hbyte := Percent.byteOf_escape b
      rw [hx, hy] at hbyte
      have hspace : byteOf (0x32 : UInt16).toNat (0x30 : UInt16).toNat = some 0x20 := by decide
      rw [hspace] at hbyte
      exact h.1 (Option.some.inj hbyte)
    show plusSpaces (Percent.escape b ++ escapes bytes ++ us) =
      Percent.escape b ++ escapes bytes ++ plusSpaces us
    simp only [Percent.escape, List.cons_append, List.nil_append]
    rw [plusSpaces, if_neg hne, plusSpaces_cons (hexDigit_ne_percent (by omega)),
      plusSpaces_cons (hexDigit_ne_percent (by omega)), ih h.2]

theorem isSafe_iff {c : Char} : isSafe c = true ↔ c.toNat < 0x80 ∧
    isQueryUnit (UInt16.ofNat c.toNat) = true ∧ c.toNat ≠ 0x2B ∧ c.toNat ≠ 0x25 := by
  by_cases hlt : c.toNat < 0x80
  · have hnat : (UInt16.ofNat c.toNat).toNat = c.toNat := Utf16.toNat_ofNat_of_lt (by omega)
    simp only [isSafe, Percent.unreserved, isQueryUnit, hnat, Bool.and_eq_true, Bool.or_eq_true,
      decide_eq_true_eq, List.contains_iff_mem, List.mem_cons, List.not_mem_nil, or_false,
      Bool.not_eq_true', ← Bool.not_eq_true]
    omega
  · simp [isSafe, hlt]

theorem encode_space {c : Char} (h : c.toNat = 0x20) : String.utf8EncodeChar c = [0x20] := by
  rw [Utf8.encode_ascii (by omega), h]
  rfl

theorem plusSpaces_marked (c : Char) (us : Units) :
    plusSpaces ((component c).flatMap escapeMark ++ us) = queryChar c ++ plusSpaces us := by
  rw [component_marked, queryChar]
  by_cases hspace : c.toNat = 0x20
  · have hunsafe : ¬ isSafe c = true := by
      rw [isSafe_iff, hspace]
      rintro ⟨-, h, -⟩
      revert h
      decide
    rw [if_neg hunsafe, if_pos hspace, encode_space hspace]
    rfl
  · rw [if_neg hspace]
    split
    · next hsafe =>
      obtain ⟨hlt, -, -, hpercent⟩ := isSafe_iff.mp hsafe
      refine plusSpaces_cons ?_ us
      intro heq
      have hnat : (UInt16.ofNat c.toNat).toNat = c.toNat := Utf16.toNat_ofNat_of_lt (by omega)
      rw [heq] at hnat
      exact hpercent hnat.symm
    · refine plusSpaces_escapes ?_ us
      intro hmem
      exact hspace (Utf8.encode_of_ascii_mem hmem (by decide)).1

theorem encodeQueryComponent_flatMap (cs : List Char) :
    encodeQueryComponent (cs.flatMap Utf16.units) = some (cs.flatMap queryChar) := by
  rw [encodeQueryComponent, Percent.encode_flatMap, Option.map_some, List.flatMap_assoc]
  congr 1
  induction cs with
  | nil => rfl
  | cons c cs ih => rw [List.flatMap_cons, plusSpaces_marked, ih, List.flatMap_cons]

theorem isSome_encodeQueryComponent (us : Units) :
    (encodeQueryComponent us).isSome = Utf16.isWellFormed us := by
  rw [encodeQueryComponent, Option.isSome_map, Percent.isSome_encode]

/-- What is written is letters, digits and `*-._+%`. -/
theorem isQueryUnit_of_mem {c : Char} {u : UInt16} (h : u ∈ queryChar c) :
    isQueryUnit u = true := by
  unfold queryChar at h
  split at h
  · rw [List.mem_singleton.mp h]
    rfl
  · split at h
    · next hsafe =>
      rw [List.mem_singleton.mp h]
      exact (isSafe_iff.mp hsafe).2.1
    · have hrange := mem_escapes h
      simp only [isQueryUnit, Bool.or_eq_true, Bool.and_eq_true, decide_eq_true_eq,
        List.contains_iff_mem, List.mem_cons, List.not_mem_nil, or_false]
      omega

/-- A written character is read back. -/
theorem decode_queryChar (c : Char) (us : Units) :
    decodeURIComponent (plussed (queryChar c) ++ us) =
      (decodeURIComponent us).map (Utf16.units c ++ ·) := by
  unfold queryChar
  split
  · next hspace =>
    have hunits : Utf16.units c = [0x20] := by
      rw [Utf16.units, if_pos (by omega), hspace]
      rfl
    rw [hunits]
    exact Percent.decode_literal (by decide) us
  · split
    · next hsafe =>
      obtain ⟨hlt, -, hplus, hpercent⟩ := isSafe_iff.mp hsafe
      have hnat : (UInt16.ofNat c.toNat).toNat = c.toNat := Utf16.toNat_ofNat_of_lt (by omega)
      have hne : ∀ n < 0x80, c.toNat ≠ n → UInt16.ofNat c.toNat ≠ UInt16.ofNat n := by
        intro n hn hcn heq
        rw [heq, Utf16.toNat_ofNat_of_lt (by omega)] at hnat
        exact hcn hnat.symm
      rw [plussed_eq_self (by
        rw [List.mem_singleton]
        exact (hne 0x2B (by decide) hplus).symm), Utf16.units, if_pos (by omega)]
      exact Percent.decode_literal (hne 0x25 (by decide) hpercent) us
    · have hplus : (0x2B : UInt16) ∉ escapes (String.utf8EncodeChar c) := by
        intro hmem
        have hrange := mem_escapes hmem
        revert hrange
        decide
      rw [plussed_eq_self hplus]
      exact Percent.decode_spells (Percent.spells_escapes _) us

theorem decodeQuery_flatMap (cs : List Char) :
    decodeQuery (cs.flatMap queryChar) = cs.flatMap Utf16.units := by
  have hdecode : decodeURIComponent (plussed (cs.flatMap queryChar)) =
      some (cs.flatMap Utf16.units) := by
    induction cs with
    | nil => exact Percent.decode_nil
    | cons c cs ih =>
      have happend : plussed ((c :: cs).flatMap queryChar) =
          plussed (queryChar c) ++ plussed (cs.flatMap queryChar) := by
        rw [List.flatMap_cons, plussed, List.map_append, plussed, plussed]
      rw [happend, decode_queryChar, ih, List.flatMap_cons]
      rfl
  rw [decodeQuery, hdecode, Option.getD_some]

/-- A name or value of well-formed units, written. -/
def written (us : Units) : Units := (Utf16.scalars us).flatMap queryChar

theorem encodeQueryComponent_eq {us : Units} (h : Utf16.isWellFormed us = true) :
    encodeQueryComponent us = some (written us) := by
  obtain ⟨cs, rfl⟩ := Utf16.isWellFormed_iff.mp h
  rw [encodeQueryComponent_flatMap, written, Utf16.scalars_flatMap]

theorem decodeQuery_written {us : Units} (h : Utf16.isWellFormed us = true) :
    decodeQuery (written us) = us := by
  obtain ⟨cs, rfl⟩ := Utf16.isWellFormed_iff.mp h
  rw [written, Utf16.scalars_flatMap, decodeQuery_flatMap]

theorem isQueryUnit_written {us : Units} {u : UInt16} (h : u ∈ written us) :
    isQueryUnit u = true := by
  obtain ⟨c, -, hc⟩ := List.mem_flatMap.mp h
  exact isQueryUnit_of_mem hc

theorem not_mem_written {us : Units} {u : UInt16} (h : isQueryUnit u = false) :
    u ∉ written us := by
  intro hmem
  rw [isQueryUnit_written hmem] at h
  cases h

/-- No name and no value of the list has an unpaired surrogate. -/
def Pairs.WellFormed (p : Pairs) : Prop :=
  ∀ kv ∈ p, Utf16.isWellFormed kv.1 = true ∧ Utf16.isWellFormed kv.2 = true

def writtenPair (kv : Units × Units) : Units := written kv.1 ++ 0x3D :: written kv.2

theorem toQuery_eq {p : Pairs} (h : p.WellFormed) :
    toQuery p = some ([0x26].intercalate (p.map writtenPair)) := by
  have hparts : p.mapM encodePair = some (p.map writtenPair) := by
    induction p with
    | nil => rfl
    | cons kv p ih =>
      obtain ⟨hk, hv⟩ := h kv List.mem_cons_self
      have hpair : encodePair kv = some (writtenPair kv) := by
        simp only [encodePair, encodeQueryComponent_eq hk, encodeQueryComponent_eq hv,
          Option.map_some, writtenPair]
      rw [List.mapM_cons, hpair, ih fun x hx => h x (List.mem_cons_of_mem _ hx)]
      rfl
  rw [toQuery, hparts, Option.map_some]

theorem writtenPair_ne_nil (kv : Units × Units) : writtenPair kv ≠ [] := by
  rw [writtenPair]
  simp

theorem not_mem_writtenPair (kv : Units × Units) : 0x26 ∉ writtenPair kv := by
  rw [writtenPair, List.mem_append, List.mem_cons, not_or, not_or]
  exact ⟨not_mem_written (by decide), by decide, not_mem_written (by decide)⟩

theorem head_writtenPair (kv : Units × Units) (us : Units) :
    (writtenPair kv ++ us).head? ≠ some 0x3F := by
  have hmark : ∀ ws : Units, (0x3F : UInt16) ∉ written ws :=
    fun ws => not_mem_written (by decide)
  have hk := hmark kv.1
  rw [writtenPair]
  cases hw : written kv.1 with
  | nil => simp
  | cons u ws =>
    rw [hw, List.mem_cons, not_or] at hk
    rw [List.cons_append, List.cons_append, List.head?_cons]
    exact fun h => hk.1 (Option.some.inj h).symm

theorem queryParts_intercalate {parts : List Units} (hmem : ∀ part ∈ parts, 0x26 ∉ part)
    (hne : ∀ part ∈ parts, part ≠ []) : queryParts ([0x26].intercalate parts) = parts := by
  cases parts with
  | nil => rfl
  | cons part parts =>
    rw [queryParts, List.splitOn_intercalate _ hmem (List.cons_ne_nil _ _)]
    exact List.filter_eq_self.mpr fun x hx => decide_eq_true (hne x hx)

theorem stripMark_written (p : Pairs) :
    stripMark ([0x26].intercalate (p.map writtenPair)) =
      [0x26].intercalate (p.map writtenPair) := by
  refine if_neg ?_
  cases p with
  | nil => simp
  | cons kv p =>
    rw [List.map_cons]
    cases p.map writtenPair with
    | nil =>
      rw [List.intercalate_singleton]
      have hhead := head_writtenPair kv []
      rwa [List.append_nil] at hhead
    | cons part parts =>
      rw [List.intercalate_cons_cons, List.append_assoc]
      exact head_writtenPair kv _

/-- The written pairs are parsed back, also after a question mark. -/
theorem parse_written {p : Pairs} (h : p.WellFormed) {query : Units}
    (hquery : stripMark query = [0x26].intercalate (p.map writtenPair)) : parse query = p := by
  have hparts : queryParts (stripMark query) = p.map writtenPair := by
    rw [hquery]
    refine queryParts_intercalate ?_ ?_
    · intro part hpart
      obtain ⟨kv, -, rfl⟩ := List.mem_map.mp hpart
      exact not_mem_writtenPair kv
    · intro part hpart
      obtain ⟨kv, -, rfl⟩ := List.mem_map.mp hpart
      exact writtenPair_ne_nil kv
  have hpair : ∀ kv ∈ p, (decodeQuery (rawPair (writtenPair kv)).1,
      decodeQuery (rawPair (writtenPair kv)).2) = id kv := by
    intro kv hkv
    obtain ⟨hk, hv⟩ := h kv hkv
    rw [writtenPair, rawPair_cut (not_mem_written (by decide)), decodeQuery_written hk,
      decodeQuery_written hv]
    rfl
  calc parse query
      = (p.map writtenPair).map fun part =>
          (decodeQuery (rawPair part).1, decodeQuery (rawPair part).2) := by
        rw [parse_eq_map, hparts]
    _ = p.map id := by
        rw [List.map_map]
        exact List.map_congr_left hpair
    _ = p := List.map_id p

/-- A list of well-formed pairs is parsed back from its `toString`. -/
theorem parse_toQuery {p : Pairs} (h : p.WellFormed) : (toQuery p).map parse = some p := by
  rw [toQuery_eq h, Option.map_some, parse_written h (stripMark_written p)]

/-! ### What is parsed from well-formed text -/

theorem isWellFormed_plussed {us : Units} (h : Utf16.isWellFormed us = true) :
    Utf16.isWellFormed (plussed us) = true := by
  induction hn : us.length using Nat.strongRecOn generalizing us with
  | ind n ih =>
    by_cases hmem : (0x2B : UInt16) ∈ us
    · obtain ⟨as, bs, rfl, hnot⟩ := List.eq_append_cons_of_mem hmem
      rw [Utf16.isWellFormed_append_cons rfl, Bool.and_eq_true_iff] at h
      rw [List.length_append, List.length_cons] at hn
      have hcut : plussed (as ++ 0x2B :: bs) = plussed as ++ 0x20 :: plussed bs := by
        rw [plussed, List.map_append, List.map_cons, if_pos rfl, plussed, plussed]
      rw [hcut, Utf16.isWellFormed_append_cons rfl, Bool.and_eq_true_iff]
      exact ⟨ih as.length (by omega) h.1 rfl, ih bs.length (by omega) h.2 rfl⟩
    · rw [plussed_eq_self hmem]
      exact h

theorem isWellFormed_decodeQuery {us : Units} (h : Utf16.isWellFormed us = true) :
    Utf16.isWellFormed (decodeQuery us) = true := by
  have hplus := isWellFormed_plussed h
  rw [decodeQuery]
  cases hdecode : decodeURIComponent (plussed us) with
  | none => exact hplus
  | some out =>
    rw [Option.getD_some, ← whatwgText_of_decode hplus hdecode]
    exact Utf16.isWellFormed_flatMap _

theorem isWellFormed_rawPair {part : Units} (h : Utf16.isWellFormed part = true) :
    Utf16.isWellFormed (rawPair part).1 = true ∧ Utf16.isWellFormed (rawPair part).2 = true := by
  by_cases hmem : (0x3D : UInt16) ∈ part
  · obtain ⟨k, v, rfl, hnot⟩ := List.eq_append_cons_of_mem hmem
    rw [Utf16.isWellFormed_append_cons rfl, Bool.and_eq_true_iff] at h
    rw [rawPair_cut hnot]
    exact h
  · rw [rawPair_uncut hmem]
    exact ⟨h, rfl⟩

theorem isWellFormed_splitOn {us part : Units} (h : Utf16.isWellFormed us = true)
    (hpart : part ∈ us.splitOn 0x26) : Utf16.isWellFormed part = true := by
  induction hn : us.length using Nat.strongRecOn generalizing us with
  | ind n ih =>
    by_cases hmem : (0x26 : UInt16) ∈ us
    · obtain ⟨as, bs, rfl, hnot⟩ := List.eq_append_cons_of_mem hmem
      rw [Utf16.isWellFormed_append_cons rfl, Bool.and_eq_true_iff] at h
      rw [List.splitOn_append_cons_self_of_not_mem hnot] at hpart
      rw [List.length_append, List.length_cons] at hn
      obtain rfl | hpart := List.mem_cons.mp hpart
      · exact h.1
      · exact ih bs.length (by omega) h.2 hpart rfl
    · rw [List.splitOn_eq_singleton hmem, List.mem_singleton] at hpart
      rw [hpart]
      exact h

theorem isWellFormed_stripMark {us : Units} (h : Utf16.isWellFormed us = true) :
    Utf16.isWellFormed (stripMark us) = true := by
  unfold stripMark
  split
  · next hhead =>
    cases us with
    | nil => cases hhead
    | cons u us =>
      obtain rfl : u = 0x3F := Option.some.inj hhead
      rwa [Utf16.isWellFormed_plain rfl] at h
  · exact h

/-- Well-formed text is parsed into well-formed pairs. -/
theorem parse_wellFormed {query : Units} (h : Utf16.isWellFormed query = true) :
    (parse query).WellFormed := by
  intro kv hkv
  rw [parse_eq_map, List.mem_map] at hkv
  obtain ⟨part, hpart, rfl⟩ := hkv
  obtain ⟨hk, hv⟩ := isWellFormed_rawPair
    (isWellFormed_splitOn (isWellFormed_stripMark h) (List.mem_filter.mp hpart).1)
  exact ⟨isWellFormed_decodeQuery hk, isWellFormed_decodeQuery hv⟩

/-- One pair that cannot be encoded makes `toString` throw. -/
theorem toQuery_eq_none {p : Pairs} {kv : Units × Units} (hmem : kv ∈ p)
    (h : Utf16.isWellFormed kv.1 = false ∨ Utf16.isWellFormed kv.2 = false) :
    toQuery p = none := by
  have hnone : ∀ us : Units, Utf16.isWellFormed us = false → encodeQueryComponent us = none := by
    intro us hus
    rw [← Option.isSome_eq_false_iff.trans Option.isNone_iff_eq_none, isSome_encodeQueryComponent,
      hus]
  have hpair : encodePair kv = none := by
    unfold encodePair
    obtain hk | hv := h
    · rw [hnone _ hk]
    · split
      · rfl
      · rw [hnone _ hv]
        rfl
  have hall : p.mapM encodePair = none := by
    induction p with
    | nil => cases hmem
    | cons x p ih =>
      rw [List.mapM_cons]
      obtain rfl | hmem := List.mem_cons.mp hmem
      · rw [hpair]
        rfl
      · rw [ih hmem]
        cases encodePair x <;> rfl
  rw [toQuery, hall, Option.map_none]

/-! ### The codec -/

/-- The round trip holds of every list of well-formed pairs; the constructor's list is the
standard's on just the strings whose names and values are decoded alike. -/
theorem query_codec_iff (p : Pairs) (input : Units) :
    (p.WellFormed → (toQuery p).map parse = some p) ∧
      (parse input = whatwgParse input ↔ QueryAlike input) :=
  ⟨parse_toQuery, parse_eq_whatwg_iff input⟩

/-- In `a=%41%` the code keeps `%41`, which the standard decodes, for the sake of the last `%`. -/
theorem parse_not_whatwg :
    ¬ ((∀ p : Pairs, p.WellFormed → (toQuery p).map parse = some p) ∧
      ∀ input : Units, parse input = whatwgParse input) := by
  have hfail : parse [0x61, 0x3D, 0x25, 0x34, 0x31, 0x25] ≠
      whatwgParse [0x61, 0x3D, 0x25, 0x34, 0x31, 0x25] := by
    decide +kernel
  exact fun h => hfail (h.2 _)

end WebTypes

end Iso4
