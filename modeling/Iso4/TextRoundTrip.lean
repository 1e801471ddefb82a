/-
The laws of the text codec.

* `WebTypes.utf8Encode_eq` — `utf8Encode` gives the encodings of the characters, U+FFFD for an
  unpaired surrogate, and stays inside its buffer;
* `WebTypes.utf8Decode_flatMap`, `WebTypes.utf8Decode_append` — encodings are decoded to their
  characters, whatever bytes stand before them;
* `WebTypes.encodeIntoFrom_spec` — `encodeInto` writes whole characters as long as they fit;
* `WebTypes.utf8_laws` — the laws together.
-/
import Iso4.TextDecoding

namespace Iso4

open Ipc (Blob)

namespace WebTypes

open Ipc.Utf8State (replacement)

/-! ### The buffer -/

namespace Out

/-- What was written. -/
def content (out : Out) : Blob := out.bytes.take out.p

def puts (out : Out) (bs : List Nat) : Out := bs.foldl put out

theorem puts_spec (out : Out) (bs : List Nat) (h : out.p + bs.length ≤ out.bytes.length) :
    (out.puts bs).content = out.content ++ bs.map UInt8.ofNat ∧
      (out.puts bs).p = out.p + bs.length ∧
      (out.puts bs).bytes.length = out.bytes.length := by
  induction bs generalizing out with
  | nil => exact ⟨(List.append_nil _).symm, rfl, rfl⟩
  | cons b bs ih =>
    rw [List.length_cons] at h
    have hlen : (out.put b).bytes.length = out.bytes.length := List.length_set
    have hput : (out.put b).content = out.content ++ [UInt8.ofNat b] := by
      show (out.bytes.set out.p (UInt8.ofNat b)).take (out.p + 1) = _
      rw [List.take_succ_eq_append_getElem (by rw [List.length_set]; omega),
        List.take_set_of_le (Nat.le_refl _), List.getElem_set_self]
      rfl
    obtain ⟨hcontent, hp, hbytes⟩ := ih (out.put b) (by rw [hlen]; show out.p + 1 + _ ≤ _; omega)
    refine ⟨?_, ?_, hbytes.trans hlen⟩
    · show ((out.put b).puts bs).content = _
      rw [hcontent, hput, List.append_assoc]
      rfl
    · show ((out.put b).puts bs).p = _
      rw [hp, List.length_cons]
      show out.p + 1 + bs.length = _
      omega

end Out

/-! ### The bytes of a character -/

theorem or_192 {n : Nat} (h : n < 32) : 0xC0 ||| n = n + 192 := by
  rw [show 0xC0 = 2 ^ 6 * 3 from rfl, ← Nat.two_pow_add_eq_or_of_lt (by omega)]
  omega

theorem or_224 {n : Nat} (h : n < 16) : 0xE0 ||| n = n + 224 := by
  rw [show 0xE0 = 2 ^ 5 * 7 from rfl, ← Nat.two_pow_add_eq_or_of_lt (by omega)]
  omega

theorem or_240 {n : Nat} (h : n < 8) : 0xF0 ||| n = n + 240 := by
  rw [show 0xF0 = 2 ^ 4 * 15 from rfl, ← Nat.two_pow_add_eq_or_of_lt (by omega)]
  omega

theorem or_128_and_63 (n : Nat) : 0x80 ||| n &&& 0x3F = n % 64 + 128 := by
  rw [and_63, show 0x80 = 2 ^ 7 * 1 from rfl,
    ← Nat.two_pow_add_eq_or_of_lt (Nat.lt_of_lt_of_le (Nat.mod_lt n (by decide)) (by decide))]
  omega

theorem encodeChar_two {c : Char} (h : 0x80 ≤ c.toNat) (h' : c.toNat < 0x800) :
    String.utf8EncodeChar c =
      [0xC0 ||| c.toNat >>> 6, 0x80 ||| c.toNat &&& 0x3F].map UInt8.ofNat := by
  have hval : c.val.toNat = c.toNat := rfl
  have hfirst : c.toNat / 64 % 32 = c.toNat / 64 := by omega
  simp only [String.utf8EncodeChar, hval, Nat.shiftRight_eq_div_pow, or_128_and_63]
  rw [if_neg (by omega), if_pos (by omega), or_192 (by omega), hfirst]
  rfl

theorem encodeChar_three {c : Char} (h : 0x800 ≤ c.toNat) (h' : c.toNat < 0x10000) :
    String.utf8EncodeChar c =
      [0xE0 ||| c.toNat >>> 12, 0x80 ||| (c.toNat >>> 6) &&& 0x3F,
        0x80 ||| c.toNat &&& 0x3F].map UInt8.ofNat := by
  have hval : c.val.toNat = c.toNat := rfl
  have hfirst : c.toNat / 4096 % 16 = c.toNat / 4096 := by omega
  simp only [String.utf8EncodeChar, hval, Nat.shiftRight_eq_div_pow, or_128_and_63]
  rw [if_neg (by omega), if_neg (by omega), if_pos (by omega), or_224 (by omega), hfirst]
  rfl

theorem encodeChar_four {c : Char} (h : 0x10000 ≤ c.toNat) :
    String.utf8EncodeChar c =
      [0xF0 ||| c.toNat >>> 18, 0x80 ||| (c.toNat >>> 12) &&& 0x3F,
        0x80 ||| (c.toNat >>> 6) &&& 0x3F, 0x80 ||| c.toNat &&& 0x3F].map UInt8.ofNat := by
  have hval : c.val.toNat = c.toNat := rfl
  have hvalid := Utf8.valid_toNat c
  have hfirst : c.toNat / 262144 % 8 = c.toNat / 262144 := by omega
  simp only [String.utf8EncodeChar, hval, Nat.shiftRight_eq_div_pow, or_128_and_63]
  rw [if_neg (by omega), if_neg (by omega), if_neg (by omega), or_240 (by omega), hfirst]
  rfl

/-- The encodings of the characters of a string. -/
def encoding (str : Units) : Blob := (Utf16.scalars str).flatMap String.utf8EncodeChar

theorem encodeChar_replacement :
    String.utf8EncodeChar Utf16.replacement = [0xEF, 0xBF, 0xBD].map UInt8.ofNat := by decide

theorem length_encodeChar_unit (u : UInt16) : (String.utf8EncodeChar (Utf16.unit u)).length ≤ 3 := by
  have hlt : u.toNat < 65536 := u.toNat_lt
  cases hu : Utf16.isSurrogate u with
  | true =>
    rw [Utf16.unit, if_pos hu]
    decide
  | false =>
    have hne : ¬ (0xD800 ≤ u.toNat ∧ u.toNat ≤ 0xDFFF) := by
      rw [← Utf16.isSurrogate_iff, hu]
      simp
    have hc : (Char.ofNat u.toNat).toNat = u.toNat := Utf8.toNat_ofNat_of_valid (by omega)
    have hval : (Char.ofNat u.toNat).val.toNat = u.toNat := hc
    rw [Utf16.unit, if_neg (by simp [hu]), String.length_utf8EncodeChar]
    simp only [Char.utf8Size, UInt32.le_iff_toNat_le, hval]
    split
    · omega
    · split
      · omega
      · rw [if_pos (by simp; omega)]

/-! ### `utf8Encode` -/

/-- A unit in no pair is written as its character. -/
theorem encode_unit (u : UInt16) :
    ∃ bs : List Nat, bs.map UInt8.ofNat = String.utf8EncodeChar (Utf16.unit u) ∧
      ∀ (rest : Units) (out : Out),
        (∀ v ∈ rest.head?, (Utf16.isHigh u && Utf16.isLow v) = false) →
          utf8EncodeFrom (u :: rest) out = utf8EncodeFrom rest (out.puts bs) := by
  have hlt : u.toNat < 65536 := u.toNat_lt
  have hlone : Utf16.isSurrogate u = true →
      [0xEF, 0xBF, 0xBD].map UInt8.ofNat = String.utf8EncodeChar (Utf16.unit u) := by
    intro hu
    rw [Utf16.unit, if_pos hu]
    exact encodeChar_replacement.symm
  have hplain : ¬ (0xD800 ≤ u.toNat ∧ u.toNat ≤ 0xDFFF) →
      Utf16.unit u = Char.ofNat u.toNat ∧ (Char.ofNat u.toNat).toNat = u.toNat := by
    intro hne
    rw [Utf16.unit, if_neg (by rw [Utf16.isSurrogate_iff]; exact hne)]
    exact ⟨rfl, Utf8.toNat_ofNat_of_valid (by omega)⟩
  by_cases h1 : u.toNat < 0x80
  · obtain ⟨hunit, hc⟩ := hplain (by omega)
    refine ⟨[u.toNat], ?_, ?_⟩
    · rw [hunit, Utf8.encode_ascii (by omega), hc]
      rfl
    · intro rest out _
      rw [utf8EncodeFrom.eq_def]
      show (if u.toNat < 0x80 then _ else _) = _
      rw [if_pos h1]
      rfl
  by_cases h2 : u.toNat < 0x800
  · obtain ⟨hunit, hc⟩ := hplain (by omega)
    refine ⟨_, by rw [hunit, encodeChar_two (by omega) (by omega), hc], ?_⟩
    intro rest out _
    rw [utf8EncodeFrom.eq_def]
    show (if u.toNat < 0x80 then _ else _) = _
    rw [if_neg h1, if_pos h2]
    rfl
  by_cases h3 : 0xD800 ≤ u.toNat ∧ u.toNat ≤ 0xDBFF
  · refine ⟨_, hlone (Utf16.isSurrogate_iff.mpr (by omega)), ?_⟩
    intro rest out hrest
    rw [utf8EncodeFrom.eq_def]
    show (if u.toNat < 0x80 then _ else _) = _
    rw [if_neg h1, if_neg h2, if_pos h3]
    cases rest with
    | nil => rfl
    | cons v rest =>
      have hv : ¬ (0xDC00 ≤ v.toNat ∧ v.toNat ≤ 0xDFFF) := by
        have hpair := hrest v rfl
        rw [Utf16.isHigh_iff.mpr h3, Bool.true_and] at hpair
        rw [← Utf16.isLow_iff, hpair]
        simp
      show (if 0xDC00 ≤ v.toNat ∧ v.toNat ≤ 0xDFFF then _ else _) = _
      rw [if_neg hv]
      rfl
  by_cases h4 : 0xD800 ≤ u.toNat ∧ u.toNat ≤ 0xDFFF
  · refine ⟨_, hlone (Utf16.isSurrogate_iff.mpr h4), ?_⟩
    intro rest out _
    rw [utf8EncodeFrom.eq_def]
    show (if u.toNat < 0x80 then _ else _) = _
    rw [if_neg h1, if_neg h2, if_neg h3, if_pos h4]
    rfl
  · obtain ⟨hunit, hc⟩ := hplain h4
    refine ⟨_, by rw [hunit, encodeChar_three (by omega) (by omega), hc], ?_⟩
    intro rest out _
    rw [utf8EncodeFrom.eq_def]
    show (if u.toNat < 0x80 then _ else _) = _
    rw [if_neg h1, if_neg h2, if_neg h3, if_neg h4]
    rfl

theorem encode_pair {u v : UInt16} (hu : Utf16.isHigh u = true) (hv : Utf16.isLow v = true) :
    ∃ bs : List Nat, bs.map UInt8.ofNat = String.utf8EncodeChar (Utf16.pair u v) ∧
      bs.length = 4 ∧ ∀ (rest : Units) (out : Out),
        utf8EncodeFrom (u :: v :: rest) out = utf8EncodeFrom rest (out.puts bs) := by
  have hc := Utf16.toNat_pair hu hv
  rw [Utf16.isHigh_iff] at hu
  rw [Utf16.isLow_iff] at hv
  have hcp : 0x10000 + ((u.toNat - 0xD800) <<< 10) + (v.toNat - 0xDC00) =
      (Utf16.pair u v).toNat := by
    rw [hc, Nat.shiftLeft_eq]
  refine ⟨_, (encodeChar_four (by omega)).symm, rfl, ?_⟩
  intro rest out
  rw [utf8EncodeFrom.eq_def]
  show (if u.toNat < 0x80 then _ else _) = _
  rw [if_neg (by omega), if_neg (by omega), if_pos hu]
  show (if 0xDC00 ≤ v.toNat ∧ v.toNat ≤ 0xDFFF then _ else _) = _
  rw [if_pos hv, hcp]
  rfl

/-- The loop writes the encodings of the characters, three bytes at most for a unit. -/
theorem utf8EncodeFrom_eq (str : Units) :
    ∃ bs : List Nat, bs.map UInt8.ofNat = encoding str ∧ bs.length ≤ str.length * 3 ∧
      ∀ out : Out, utf8EncodeFrom str out = out.puts bs := by
  have hlen : ∀ {bs : List Nat} {u : UInt16},
      bs.map UInt8.ofNat = String.utf8EncodeChar (Utf16.unit u) → bs.length ≤ 3 := by
    intro bs u hbs
    have hle := length_encodeChar_unit u
    rwa [← hbs, List.length_map] at hle
  induction str using Utf16.scalars.induct with
  | case1 => exact ⟨[], rfl, Nat.le_refl 0, fun _ => rfl⟩
  | case2 u =>
    obtain ⟨bs, hbs, hfrom⟩ := encode_unit u
    refine ⟨bs, ?_, by rw [List.length_singleton]; exact hlen hbs, ?_⟩
    · rw [hbs, encoding, Utf16.scalars, List.flatMap_singleton]
    · intro out
      rw [hfrom [] out (by simp), utf8EncodeFrom]
  | case3 u v us hpair ih =>
    obtain ⟨hu, hv⟩ := Bool.and_eq_true_iff.mp hpair
    obtain ⟨bs, hbs, hfour, hfrom⟩ := encode_pair hu hv
    obtain ⟨bs', hbs', hle, hfrom'⟩ := ih
    refine ⟨bs ++ bs', ?_, ?_, ?_⟩
    · rw [List.map_append, hbs, hbs', encoding, encoding, Utf16.scalars_pair hu hv,
        List.flatMap_cons]
    · rw [List.length_append, List.length_cons, List.length_cons]
      omega
    · intro out
      rw [hfrom, hfrom', Out.puts, Out.puts, Out.puts, List.foldl_append]
  | case4 u v us hpair ih =>
    have hne : (Utf16.isHigh u && Utf16.isLow v) = false := Bool.eq_false_iff.mpr hpair
    obtain ⟨bs, hbs, hfrom⟩ := encode_unit u
    obtain ⟨bs', hbs', hle, hfrom'⟩ := ih
    refine ⟨bs ++ bs', ?_, ?_, ?_⟩
    · rw [List.map_append, hbs, hbs', encoding, encoding, Utf16.scalars_unpaired hne,
        List.flatMap_cons]
    · have hthree := hlen hbs
      rw [List.length_append, List.length_cons]
      omega
    · intro out
      rw [hfrom (v :: us) out (by simpa using hne), hfrom', Out.puts, Out.puts, Out.puts,
        List.foldl_append]

/-- The bytes, and where the last write was. -/
theorem utf8EncodeBuffer_spec (str : Units) :
    (utf8EncodeBuffer str).bytes.length = str.length * 3 ∧
      (utf8EncodeBuffer str).p ≤ str.length * 3 ∧ utf8Encode str = encoding str := by
  obtain ⟨bs, hbs, hle, hfrom⟩ := utf8EncodeFrom_eq str
  have hroom : (List.replicate (str.length * 3) (0 : UInt8)).length = str.length * 3 :=
    List.length_replicate
  obtain ⟨hcontent, hp, hbytes⟩ := Out.puts_spec ⟨List.replicate (str.length * 3) 0, 0⟩ bs
    (by rw [hroom, Nat.zero_add]; exact hle)
  have hbuffer : utf8EncodeBuffer str = Out.puts ⟨List.replicate (str.length * 3) 0, 0⟩ bs :=
    hfrom _
  rw [← hbuffer] at hcontent hp hbytes
  refine ⟨hbytes.trans hroom, ?_, ?_⟩
  · rw [hp, Nat.zero_add]
    exact hle
  · show (utf8EncodeBuffer str).content = _
    rw [hcontent, hbs]
    rfl

theorem utf8Encode_eq (str : Units) : utf8Encode str = encoding str :=
  (utf8EncodeBuffer_spec str).2.2

/-! ### Decoding encodings -/

theorem flatMap_perByte_chars (cs : List Char) :
    (cs.map fun c => (some c, (String.utf8EncodeChar c).length)).flatMap perByte = cs := by
  induction cs with
  | nil => rfl
  | cons c cs ih =>
    rw [List.map_cons, List.flatMap_cons, ih]
    rfl

theorem utf8Decode_flatMap (cs : List Char) :
    utf8Decode (cs.flatMap String.utf8EncodeChar) = cs.flatMap Utf16.units := by
  have hpieces := Utf8.pieces_flatMap cs []
  rw [List.append_nil, Utf8.pieces_nil, List.append_nil] at hpieces
  rw [utf8Decode_eq, hpieces, flatMap_perByte_chars]

theorem utf8Decode_utf8Encode (str : Units) :
    utf8Decode (utf8Encode str) = Utf16.toWellFormed str := by
  rw [utf8Encode_eq, encoding, utf8Decode_flatMap, Utf16.flatMap_scalars]

/-- No bytes before an encoded text change what it is decoded to. -/
theorem utf8Decode_append (bytes : Blob) (cs : List Char) :
    utf8Decode (bytes ++ cs.flatMap String.utf8EncodeChar) =
      utf8Decode bytes ++ utf8Decode (cs.flatMap String.utf8EncodeChar) := by
  rw [utf8Decode_eq, utf8Decode_eq, utf8Decode_eq, Utf8.pieces_append (Utf8.not_tail_head cs),
    List.flatMap_append, List.flatMap_append]

/-! ### `encodeInto` -/

/-- A string is cut before its unit `n`, and no pair is. -/
def CutsNoPair (str : Units) (n : Nat) : Prop :=
  ∀ u v, 0 < n → str[n - 1]? = some u → str[n]? = some v →
    (Utf16.isHigh u && Utf16.isLow v) = false

theorem unitsAt_pair {u v : UInt16} (h : (Utf16.isHigh u && Utf16.isLow v) = true) (us : Units) :
    unitsAt (u :: v :: us) = 2 := by
  obtain ⟨hu, hv⟩ := Bool.and_eq_true_iff.mp h
  exact if_pos ⟨Utf16.isHigh_iff.mp hu, Utf16.isLow_iff.mp hv⟩

theorem unitsAt_unpaired {u v : UInt16} (h : ¬ (Utf16.isHigh u && Utf16.isLow v) = true)
    (us : Units) : unitsAt (u :: v :: us) = 1 := by
  refine if_neg ?_
  rintro ⟨hu, hv⟩
  exact h (Bool.and_eq_true_iff.mpr ⟨Utf16.isHigh_iff.mpr hu, Utf16.isLow_iff.mpr hv⟩)

/-- What `unitsAt` counts is the first character, however much of the string follows. -/
theorem unitsAt_spec (u : UInt16) (rest : Units) :
    ∃ c k, unitsAt (u :: rest) = k ∧ 0 < k ∧ k ≤ (u :: rest).length ∧
      CutsNoPair (u :: rest) k ∧
      ∀ n, Utf16.scalars ((u :: rest).take k ++ ((u :: rest).drop k).take n) =
        c :: Utf16.scalars (((u :: rest).drop k).take n) := by
  cases rest with
  | nil =>
    refine ⟨Utf16.unit u, 1, rfl, Nat.one_pos, Nat.le_refl 1, ?_, ?_⟩
    · intro x y _ _ hy
      simp at hy
    · intro n
      simp [Utf16.scalars]
  | cons v us =>
    by_cases hpair : (Utf16.isHigh u && Utf16.isLow v) = true
    · obtain ⟨hu, hv⟩ := Bool.and_eq_true_iff.mp hpair
      refine ⟨Utf16.pair u v, 2, unitsAt_pair hpair us, Nat.two_pos, by simp, ?_, ?_⟩
      · intro x y _ hx _
        obtain rfl : v = x := by simpa using hx
        rw [Utf16.isLow_iff] at hv
        rw [Bool.and_eq_false_iff, ← Bool.not_eq_true, Utf16.isHigh_iff]
        omega
      · intro n
        exact Utf16.scalars_pair hu hv _
    · refine ⟨Utf16.unit u, 1, unitsAt_unpaired hpair us, Nat.one_pos, by simp, ?_, ?_⟩
      · intro x y _ hx hy
        obtain rfl : u = x := by simpa using hx
        obtain rfl : v = y := by simpa using hy
        exact Bool.eq_false_iff.mpr hpair
      · intro n
        cases n with
        | zero => rfl
        | succ n => exact Utf16.scalars_unpaired (Bool.eq_false_iff.mpr hpair) _

theorem encoding_take {c : Char} {str : Units} {k : Nat}
    (h : ∀ n, Utf16.scalars (str.take k ++ (str.drop k).take n) =
      c :: Utf16.scalars ((str.drop k).take n)) (n : Nat) :
    encoding (str.take (k + n)) = String.utf8EncodeChar c ++ encoding ((str.drop k).take n) := by
  rw [List.take_add, encoding, h, List.flatMap_cons, encoding]

theorem cutsNoPair_add {str : Units} {k n : Nat} (hk : CutsNoPair str k)
    (hn : CutsNoPair (str.drop k) n) : CutsNoPair str (k + n) := by
  intro u v hpos hu hv
  cases n with
  | zero => exact hk u v hpos hu hv
  | succ n =>
    refine hn u v (Nat.succ_pos n) ?_ ?_
    · rw [List.getElem?_drop]
      exact hu
    · rw [List.getElem?_drop]
      exact hv

theorem setBytes_length {dest bytes : Blob} {start : Nat} (h : start + bytes.length ≤ dest.length) :
    (setBytes dest bytes start).length = dest.length := by
  simp only [setBytes, List.length_append, List.length_take, List.length_drop]
  omega

theorem take_setBytes {dest bytes : Blob} {start : Nat} (h : start + bytes.length ≤ dest.length) :
    (setBytes dest bytes start).take (start + bytes.length) = dest.take start ++ bytes := by
  have hlen : (dest.take start ++ bytes).length = start + bytes.length := by
    rw [List.length_append, List.length_take]
    omega
  rw [setBytes, ← hlen, List.take_left]

theorem drop_setBytes {dest bytes : Blob} {start n : Nat}
    (h : start + bytes.length ≤ dest.length) (hn : start + bytes.length ≤ n) :
    (setBytes dest bytes start).drop n = dest.drop n := by
  have hlen : (dest.take start ++ bytes).length = start + bytes.length := by
    rw [List.length_append, List.length_take]
    omega
  rw [setBytes, List.drop_append, List.drop_eq_nil_of_le (by omega), List.nil_append,
    List.drop_drop, hlen]
  congr 1
  omega

theorem dest_unwritten (e : Encoded) :
    e.dest = e.dest.take e.written ++ encoding [] ++ e.dest.drop e.written := by
  show e.dest = e.dest.take e.written ++ [] ++ e.dest.drop e.written
  rw [List.append_nil, List.take_append_drop]

/-- The loop reads whole characters and writes them after what is written, until one does not
fit. -/
theorem encodeIntoFrom_spec {fuel : Nat} {str : Units} (h : str.length ≤ fuel) (e : Encoded)
    (hfits : e.written ≤ e.dest.length) :
    ∃ n, n ≤ str.length ∧ (encodeIntoFrom fuel str e).read = e.read + n ∧
      (encodeIntoFrom fuel str e).written = e.written + (encoding (str.take n)).length ∧
      (encodeIntoFrom fuel str e).written ≤ e.dest.length ∧
      (encodeIntoFrom fuel str e).dest = e.dest.take e.written ++ encoding (str.take n) ++
        e.dest.drop (encodeIntoFrom fuel str e).written ∧
      CutsNoPair str n ∧
      ∀ c ∈ (Utf16.scalars (str.drop n)).head?,
        e.dest.length < (encodeIntoFrom fuel str e).written + (String.utf8EncodeChar c).length := by
  induction fuel generalizing str e with
  | zero =>
    obtain rfl : str = [] := List.eq_nil_of_length_eq_zero (by omega)
    exact ⟨0, Nat.le_refl 0, rfl, rfl, hfits, dest_unwritten e, fun _ _ h => by omega, by
      simp [Utf16.scalars]⟩
  | succ fuel ih =>
    cases str with
    | nil =>
      exact ⟨0, Nat.le_refl 0, rfl, rfl, hfits, dest_unwritten e, fun _ _ h => by omega, by
        simp [Utf16.scalars]⟩
    | cons u rest =>
      obtain ⟨c, k, hk, hpos, hle, hcut, hscalars⟩ := unitsAt_spec u rest
      have hchar : utf8Encode ((u :: rest).take k) = String.utf8EncodeChar c := by
        have hone := encoding_take hscalars 0
        rw [Nat.add_zero, List.take_zero] at hone
        rw [utf8Encode_eq, hone]
        exact List.append_nil _
      rw [encodeIntoFrom, hk, hchar]
      by_cases hroom : e.dest.length < e.written + (String.utf8EncodeChar c).length
      · simp only [if_pos hroom]
        refine ⟨0, Nat.zero_le _, rfl, rfl, hfits, dest_unwritten e, fun _ _ h => by omega, ?_⟩
        intro c' hc'
        have hhead := hscalars ((u :: rest).drop k).length
        rw [List.take_length, List.take_append_drop] at hhead
        rw [List.drop_zero, hhead, List.head?_cons, Option.mem_some_iff] at hc'
        rw [← hc']
        exact hroom
      · simp only [if_neg hroom]
        have hin : e.written + (String.utf8EncodeChar c).length ≤ e.dest.length := by omega
        have hlen := setBytes_length hin
        obtain ⟨n, hn, hread, hwritten, hfits', hdest, hcuts, hstops⟩ :=
          ih (show ((u :: rest).drop k).length ≤ fuel by
            rw [List.length_drop]; rw [List.length_cons] at h ⊢; omega)
            ⟨e.read + k, e.written + (String.utf8EncodeChar c).length,
              setBytes e.dest (String.utf8EncodeChar c) e.written⟩ (by rw [hlen]; exact hin)
        have htake := encoding_take hscalars n
        refine ⟨k + n, ?_, ?_, ?_, ?_, ?_, cutsNoPair_add hcut hcuts, ?_⟩
        · rw [List.length_drop] at hn
          omega
        · rw [hread]
          show e.read + k + n = e.read + (k + n)
          omega
        · rw [hwritten, htake, List.length_append]
          show e.written + _ + _ = _
          omega
        · rw [← hlen]
          exact hfits'
        · rw [hdest, htake, ← List.append_assoc]
          show List.take (e.written + _) (setBytes _ _ _) ++ _ ++ List.drop _ (setBytes _ _ _) = _
          rw [take_setBytes hin, drop_setBytes hin (by rw [hwritten]; exact Nat.le_add_right _ _)]
        · intro c' hc'
          rw [← List.drop_drop] at hc'
          have hlt := hstops c' hc'
          rw [← hlen]
          exact hlt

/-! ### The laws -/

/-- What `encodeInto` leaves: whole characters from the start of the string, at the start of
`dest`, and no room for the next one. -/
structure EncodedWhole (str : Units) (dest : Blob) (e : Encoded) : Prop where
  read_le : e.read ≤ str.length
  written_eq : e.written = (utf8Encode (str.take e.read)).length
  written_le : e.written ≤ dest.length
  dest_eq : e.dest = utf8Encode (str.take e.read) ++ dest.drop e.written
  cuts : CutsNoPair str e.read
  stops : ∀ c ∈ (Utf16.scalars (str.drop e.read)).head?,
    dest.length < e.written + (String.utf8EncodeChar c).length

theorem encodeInto_whole (str : Units) (dest : Blob) :
    EncodedWhole str dest (encodeInto str dest) := by
  obtain ⟨n, hn, hread, hwritten, hfits, hdest, hcuts, hstops⟩ :=
    encodeIntoFrom_spec (Nat.le_refl str.length) ⟨0, 0, dest⟩ (Nat.zero_le _)
  have hread' : (encodeInto str dest).read = n := hread.trans (Nat.zero_add n)
  constructor
  · rw [hread']
    exact hn
  · rw [hread', utf8Encode_eq]
    exact hwritten.trans (Nat.zero_add _)
  · exact hfits
  · rw [hread', utf8Encode_eq]
    exact hdest
  · rw [hread']
    exact hcuts
  · rw [hread']
    exact hstops

/-- The laws of the codec: the round trip, the bound on the buffer, text after arbitrary bytes,
and `encodeInto`. -/
theorem utf8_laws :
    (∀ str : Units, utf8Decode (utf8Encode str) = Utf16.toWellFormed str) ∧
      (∀ str : Units, (utf8EncodeBuffer str).bytes.length = str.length * 3 ∧
        (utf8EncodeBuffer str).p ≤ str.length * 3) ∧
      (∀ (bytes : Blob) (cs : List Char),
        utf8Decode (bytes ++ cs.flatMap String.utf8EncodeChar) =
          utf8Decode bytes ++ utf8Decode (cs.flatMap String.utf8EncodeChar)) ∧
      ∀ (str : Units) (dest : Blob), EncodedWhole str dest (encodeInto str dest) := by
  refine ⟨utf8Decode_utf8Encode, ?_, utf8Decode_append, encodeInto_whole⟩
  intro str
  exact ⟨(utf8EncodeBuffer_spec str).1, (utf8EncodeBuffer_spec str).2.1⟩

end WebTypes

end Iso4
