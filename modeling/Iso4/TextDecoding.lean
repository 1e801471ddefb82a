/-
What `utf8Decode` makes of arbitrary bytes, beside the UTF-8 decoder of the WHATWG standard.

* `WebTypes.sequence_eq_piece` — what the loop takes for a sequence is a good piece;
* `WebTypes.utf8Decode_eq` — the text of the pieces, a bad one of `n` bytes as `n` times U+FFFD;
* `Ipc.Utf8State.decode_eq` — the standard's text, a bad one as one U+FFFD;
* `WebTypes.utf8Decode_eq_whatwg_iff` — when the two are the same: there is no byte order mark to
  remove, and every bad piece is one byte.
-/
import Iso4.RuntimePayloads
import Iso4.TextCodec
import Iso4.Lib.Utf8
import Iso4.Lib.Utf16

namespace Iso4

open Ipc (Blob)

/-! ### The decoder of the standard -/

namespace Ipc.Utf8State

theorem decode_idle_cons (b : UInt8) (bs : Blob) :
    idle.decode (b :: bs) = (lead b).1 ++ (lead b).2.decode bs := rfl

/-- The character of a piece. -/
def ofPiece (p : Option Char × Nat) : Char := p.1.getD replacement

/-- Inside a sequence the decoder takes what `follow` takes. -/
theorem decode_follow (needed codePoint lower upper : Nat) (bs : Blob) :
    decode ⟨codePoint, needed + 1, lower, upper⟩ bs =
      ofPiece (Utf8.follow (needed + 1) codePoint lower upper bs) ::
        idle.decode (bs.drop (Utf8.follow (needed + 1) codePoint lower upper bs).2) := by
  induction bs generalizing needed codePoint lower upper with
  | nil =>
    rw [decode, if_neg (Nat.succ_ne_zero needed), Utf8.follow]
    rfl
  | cons b bs ih =>
    by_cases hb : lower ≤ b.toNat ∧ b.toNat ≤ upper
    · have hin : ¬ (b.toNat < lower ∨ upper < b.toNat) := by omega
      rw [Utf8.follow, if_pos hb, decode, next, if_neg (Nat.succ_ne_zero needed), if_neg hin]
      cases needed with
      | zero => simp only [Utf8.follow, ofPiece, if_true, Option.getD_some, List.singleton_append,
          List.drop_succ_cons, List.drop_zero]
      | succ needed => exact ih needed _ _ _
    · have hout : b.toNat < lower ∨ upper < b.toNat := by omega
      rw [Utf8.follow, if_neg hb, decode, next, if_neg (Nat.succ_ne_zero needed), if_pos hout]
      rfl

theorem lead_eq (b : UInt8) :
    lead b =
      match Utf8.lead b.toNat with
      | none => ([replacement], idle)
      | some (bits, 0, _, _) => ([Char.ofNat bits], idle)
      | some (bits, needed + 1, lower, upper) => ([], ⟨bits, needed + 1, lower, upper⟩) := by
  simp only [lead, Utf8.lead]
  split
  · rfl
  · split
    · rfl
    · split
      · rfl
      · split
        · rfl
        · rfl

theorem decode_piece (b : UInt8) (bs : Blob) :
    idle.decode (b :: bs) =
      ofPiece (Utf8.piece (b :: bs)) :: idle.decode ((b :: bs).drop (Utf8.piece (b :: bs)).2) := by
  rw [decode_idle_cons, lead_eq]
  cases hlead : Utf8.lead b.toNat with
  | none =>
    simp only [Utf8.piece, hlead]
    rfl
  | some r =>
    obtain ⟨bits, needed, lower, upper⟩ := r
    simp only [Utf8.piece, hlead]
    cases needed with
    | zero => rfl
    | succ needed => exact decode_follow needed bits lower upper bs

/-- The decoder gives one character for each piece. -/
theorem decode_eq (bytes : Blob) : idle.decode bytes = (Utf8.pieces bytes).map ofPiece := by
  induction hn : bytes.length using Nat.strongRecOn generalizing bytes with
  | ind n ih =>
    cases bytes with
    | nil =>
      rw [Utf8.pieces_nil]
      rfl
    | cons b bs =>
      have hpos := Utf8.piece_pos b bs
      rw [decode_piece, Utf8.pieces_cons, List.map_cons]
      refine congrArg _ (ih _ ?_ _ rfl)
      rw [← hn, List.length_drop, List.length_cons]
      omega

end Ipc.Utf8State

namespace WebTypes

open Ipc.Utf8State (replacement ofPiece)

/-! ### Bits -/

theorem and_63 (n : Nat) : n &&& 0x3F = n % 64 := Nat.and_two_pow_sub_one_eq_mod n 6

theorem shift_or_63 (cp n : Nat) : cp <<< 6 ||| n &&& 0x3F = cp * 64 + n % 64 := by
  have hlt : n % 64 < 2 ^ 6 := Nat.mod_lt _ (by decide)
  rw [and_63, ← Nat.shiftLeft_add_eq_or_of_lt hlt, Nat.shiftLeft_eq]

theorem isTail_of_bits : ∀ n < 256, n &&& 0xC0 = 0x80 ↔ 0x80 ≤ n ∧ n ≤ 0xBF := by decide +kernel

theorem isTail_iff (b : UInt8) : b.toNat &&& 0xC0 = 0x80 ↔ Utf8.IsTail b :=
  isTail_of_bits b.toNat b.toNat_lt

/-! ### Sequences are good pieces -/

theorem continuation_short {k : Nat} {bs : Blob} (h : bs.length < k) (cp : Nat) :
    continuation k cp bs = none := by
  induction bs generalizing k cp with
  | nil =>
    cases k with
    | zero => simp at h
    | succ k => rfl
  | cons b bs ih =>
    cases k with
    | zero => simp at h
    | succ k =>
      rw [List.length_cons] at h
      rw [continuation]
      split
      · rfl
      · exact ih (by omega) _

/-- Past the second byte of a sequence both readers want a tail. -/
theorem continuation_follow (k cp : Nat) (bs : Blob) :
    (∃ v, continuation k cp bs = some v ∧ cp * 64 ^ k ≤ v ∧ v < (cp + 1) * 64 ^ k ∧
      Utf8.follow k cp 0x80 0xBF bs = (some (Char.ofNat v), k)) ∨
    (continuation k cp bs = none ∧ (Utf8.follow k cp 0x80 0xBF bs).1 = none) := by
  induction k generalizing cp bs with
  | zero => exact Or.inl ⟨cp, rfl, by omega, by omega, rfl⟩
  | succ k ih =>
    cases bs with
    | nil => exact Or.inr ⟨rfl, rfl⟩
    | cons b bs =>
      by_cases hb : 0x80 ≤ b.toNat ∧ b.toNat ≤ 0xBF
      · have hmod : b.toNat % 64 = b.toNat - 0x80 := by omega
        have hlt : b.toNat - 0x80 < 64 := by omega
        rw [continuation, if_neg (not_not.mpr ((isTail_iff b).mpr hb)), shift_or_63, hmod,
          Utf8.follow, if_pos hb]
        obtain ⟨v, hv, hge, hlt', hfollow⟩ | ⟨hnone, hfollow⟩ :=
          ih (cp * 64 + (b.toNat - 0x80)) bs
        · refine Or.inl ⟨v, hv, ?_, ?_, by rw [hfollow]⟩
          · calc cp * 64 ^ (k + 1) = cp * 64 * 64 ^ k := by rw [Nat.pow_succ', Nat.mul_assoc]
              _ ≤ (cp * 64 + (b.toNat - 0x80)) * 64 ^ k := Nat.mul_le_mul_right _ (by omega)
              _ ≤ v := hge
          · calc v < (cp * 64 + (b.toNat - 0x80) + 1) * 64 ^ k := hlt'
              _ ≤ (cp + 1) * 64 * 64 ^ k := Nat.mul_le_mul_right _ (by omega)
              _ = (cp + 1) * 64 ^ (k + 1) := by rw [Nat.pow_succ', Nat.mul_assoc]
        · exact Or.inr ⟨hnone, hfollow⟩
      · have hnone : continuation (k + 1) cp (b :: bs) = none :=
          if_pos fun h => hb ((isTail_iff b).mp h)
        rw [Utf8.follow, if_neg hb]
        exact Or.inr ⟨hnone, rfl⟩

/-- The least code point with so many bytes after the first. -/
def least : (needed : Nat) → Nat
  | 0 => 0
  | 1 => 0x80
  | 2 => 0x800
  | _ => 0x10000

theorem leadByte_eq (n : Nat) :
    leadByte n = (Utf8.lead n).map fun r => (r.1, r.2.1 + 1, least r.2.1) := by
  have h31 : n &&& 0x1F = n % 32 := Nat.and_two_pow_sub_one_eq_mod n 5
  have h15 : n &&& 0x0F = n % 16 := Nat.and_two_pow_sub_one_eq_mod n 4
  have h7 : n &&& 0x07 = n % 8 := Nat.and_two_pow_sub_one_eq_mod n 3
  simp only [leadByte, Utf8.lead, h31, h15, h7]
  split
  · rfl
  · split
    · rw [show n % 32 = n - 0xC0 by omega]
      rfl
    · split
      · rw [show n % 16 = n - 0xE0 by omega]
        rfl
      · split
        · rw [show n % 8 = n - 0xF0 by omega]
          rfl
        · rfl

/-- The check of a whole sequence: its bytes, and its code point. -/
def checked (bits needed : Nat) (rest : Blob) : Option (Nat × Nat) :=
  match continuation needed bits rest with
  | none => none
  | some cp =>
    if cp < least needed ∨ 0x10FFFF < cp ∨ 0xD800 ≤ cp ∧ cp ≤ 0xDFFF then none
    else some (cp, needed + 1)

theorem sequence_none {b0 : UInt8} (h : Utf8.lead b0.toNat = none) (rest : Blob) :
    sequence b0 rest = none := by
  simp only [sequence, leadByte_eq, h, Option.map_none]

theorem sequence_some {b0 : UInt8} {bits needed lower upper : Nat}
    (h : Utf8.lead b0.toNat = some (bits, needed, lower, upper)) (rest : Blob) :
    sequence b0 rest = checked bits needed rest := by
  simp only [sequence, leadByte_eq, h, Option.map_some, Nat.add_sub_cancel, checked]
  split
  · next hshort => rw [continuation_short (by omega)]
  · rfl

/-- The second byte is in its range just when the code point is one of that length. -/
theorem second_iff {b bits k lower upper x v : Nat}
    (hlead : Utf8.lead b = some (bits, k + 1, lower, upper)) (hx : 0x80 ≤ x ∧ x ≤ 0xBF)
    (hge : (bits * 64 + (x - 0x80)) * 64 ^ k ≤ v)
    (hlt : v < (bits * 64 + (x - 0x80) + 1) * 64 ^ k) :
    (v < least (k + 1) ∨ 0x10FFFF < v ∨ 0xD800 ≤ v ∧ v ≤ 0xDFFF) ↔ ¬ (lower ≤ x ∧ x ≤ upper) := by
  obtain ⟨-, -, hneeded⟩ | ⟨hb, hb', hbits, hneeded, hlower, hupper⟩ |
    ⟨hb, hb', hbits, hneeded, hlower, hupper⟩ | ⟨hb, hb', hbits, hneeded, hlower, hupper⟩ :=
    Utf8.lead_cases hlead
  · omega
  · obtain rfl : k = 0 := by omega
    simp only [least]
    omega
  · obtain rfl : k = 1 := by omega
    simp only [least]
    split at hlower <;> split at hupper <;> omega
  · obtain rfl : k = 2 := by omega
    simp only [least]
    split at hlower <;> split at hupper <;> omega

theorem checked_eq_follow {b bits needed lower upper : Nat} (rest : Blob)
    (hlead : Utf8.lead b = some (bits, needed, lower, upper)) :
    checked bits needed rest = (Utf8.follow needed bits lower upper rest).1.map
      fun c => (c.toNat, (Utf8.follow needed bits lower upper rest).2 + 1) := by
  cases needed with
  | zero =>
    have hbits : bits < 0x80 := by
      obtain ⟨hb, hbits, -⟩ | ⟨-, -, -, hneeded, -⟩ | ⟨-, -, -, hneeded, -⟩ |
        ⟨-, -, -, hneeded, -⟩ := Utf8.lead_cases hlead <;> omega
    have hchar : (Char.ofNat bits).toNat = bits := Utf8.toNat_ofNat_of_valid (by omega)
    have hgood : ¬ (bits < 0 ∨ 0x10FFFF < bits ∨ 0xD800 ≤ bits ∧ bits ≤ 0xDFFF) := by omega
    simp only [checked, continuation, least, Utf8.follow, Option.map_some, hchar, if_neg hgood]
  | succ k =>
    cases rest with
    | nil => rfl
    | cons x bs =>
      obtain ⟨hlower, hupper⟩ := Utf8.lead_range hlead (Nat.succ_ne_zero k)
      by_cases hx : 0x80 ≤ x.toNat ∧ x.toNat ≤ 0xBF
      · have hmod : x.toNat % 64 = x.toNat - 0x80 := by omega
        have hcons : continuation (k + 1) bits (x :: bs) =
            continuation k (bits * 64 + (x.toNat - 0x80)) bs := by
          rw [continuation, if_neg (not_not.mpr ((isTail_iff x).mpr hx)), shift_or_63, hmod]
        obtain ⟨v, hv, hge, hlt, hfollow⟩ | ⟨hnone, hfollow⟩ :=
          continuation_follow k (bits * 64 + (x.toNat - 0x80)) bs
        · have hiff := second_iff hlead hx hge hlt
          by_cases hin : lower ≤ x.toNat ∧ x.toNat ≤ upper
          · have hgood := fun h => hiff.mp h hin
            have hchar : (Char.ofNat v).toNat = v := Utf8.toNat_ofNat_of_valid (by omega)
            simp only [checked, hcons, hv, Utf8.follow, if_pos hin, hfollow, Option.map_some,
              hchar, if_neg hgood]
          · simp only [checked, hcons, hv, Utf8.follow, if_neg hin, Option.map_none,
              if_pos (hiff.mpr hin)]
        · simp only [checked, hcons, hnone, Utf8.follow]
          split
          · rw [hfollow]
            rfl
          · rfl
      · have hnone : continuation (k + 1) bits (x :: bs) = none :=
          if_pos fun h => hx ((isTail_iff x).mp h)
        have hout : ¬ (lower ≤ x.toNat ∧ x.toNat ≤ upper) := by omega
        simp only [checked, hnone, Utf8.follow, if_neg hout, Option.map_none]

/-- What the loop takes for a sequence is a good piece. -/
theorem sequence_eq_piece (b0 : UInt8) (rest : Blob) :
    sequence b0 rest =
      (Utf8.piece (b0 :: rest)).1.map fun c => (c.toNat, (Utf8.piece (b0 :: rest)).2) := by
  cases hlead : Utf8.lead b0.toNat with
  | none => simp only [sequence_none hlead, Utf8.piece, hlead, Option.map_none]
  | some r =>
    obtain ⟨bits, needed, lower, upper⟩ := r
    rw [sequence_some hlead, checked_eq_follow rest hlead]
    simp only [Utf8.piece, hlead]

/-! ### The text of the loop -/

/-- Everything that was emitted. -/
def Sink.text (s : Sink) : Units := s.out ++ s.buf

@[simp] theorem text_flush (s : Sink) : s.flush.text = s.text := by
  unfold Sink.flush
  split
  · simp [Sink.text]
  · rfl

theorem out_flush (s : Sink) : s.flush.out = s.text := by
  unfold Sink.flush
  split
  · rfl
  · next hempty =>
    have hnil : s.buf = [] := List.eq_nil_of_length_eq_zero (by omega)
    rw [Sink.text, hnil, List.append_nil]

/-- An emptied buffer loses nothing. -/
@[simp] theorem text_emit (s : Sink) (cp : Nat) : (s.emit cp).text = s.text ++ codeUnits cp := by
  have hpush : Sink.text { s with buf := s.buf ++ codeUnits cp } = s.text ++ codeUnits cp :=
    (List.append_assoc _ _ _).symm
  simp only [Sink.emit]
  split
  · rw [text_flush, hpush]
  · exact hpush

theorem codeUnits_toNat (c : Char) : codeUnits c.toNat = Utf16.units c := by
  have h1023 : ∀ n : Nat, n &&& 0x3FF = n % 1024 := fun n => Nat.and_two_pow_sub_one_eq_mod n 10
  simp only [codeUnits, Utf16.units, Nat.shiftRight_eq_div_pow, h1023]
  split
  · rw [if_neg (by omega)]
  · rw [if_pos (by omega)]

theorem codeUnits_replacement : codeUnits 0xFFFD = Utf16.units replacement := by decide

/-- A piece as the loop emits it: U+FFFD for each byte of a bad one. -/
def perByte (p : Option Char × Nat) : List Char :=
  match p.1 with
  | some c => [c]
  | none => List.replicate p.2 replacement

theorem perByte_tails (ts : Blob) :
    (ts.map fun _ => ((none : Option Char), 1)).flatMap perByte =
      List.replicate ts.length replacement := by
  induction ts with
  | nil => rfl
  | cons t ts ih =>
    rw [List.map_cons, List.flatMap_cons, ih]
    rfl

/-- Past the first byte of a bad piece every byte is a bad piece. -/
theorem perByte_bad {b : UInt8} {bs : Blob} (h : (Utf8.piece (b :: bs)).1 = none) :
    (Utf8.pieces (b :: bs)).flatMap perByte =
      replacement :: (Utf8.pieces bs).flatMap perByte := by
  obtain ⟨n, hn, hle, htails⟩ := Utf8.piece_tails b bs
  have hsplit : Utf8.pieces bs = (bs.take n).map (fun _ => (none, 1)) ++ Utf8.pieces (bs.drop n) := by
    rw [← Utf8.pieces_tails htails, List.take_append_drop]
  have hlen : (bs.take n).length = n := by
    rw [List.length_take]
    omega
  rw [Utf8.pieces_cons, List.flatMap_cons, hn, List.drop_succ_cons, hsplit, List.flatMap_append,
    perByte_tails, hlen]
  simp only [perByte, h, hn]
  rfl

theorem text_utf8DecodeFrom {fuel : Nat} {bytes : Blob} (h : bytes.length ≤ fuel) (s : Sink) :
    (utf8DecodeFrom fuel bytes s).text =
      s.text ++ ((Utf8.pieces bytes).flatMap perByte).flatMap Utf16.units := by
  induction fuel generalizing bytes s with
  | zero =>
    have hnil : bytes = [] := List.eq_nil_of_length_eq_zero (by omega)
    rw [hnil, Utf8.pieces_nil]
    exact (List.append_nil _).symm
  | succ fuel ih =>
    cases bytes with
    | nil =>
      rw [Utf8.pieces_nil]
      exact (List.append_nil _).symm
    | cons b0 rest =>
      rw [List.length_cons] at h
      rw [utf8DecodeFrom, sequence_eq_piece]
      cases hpiece : (Utf8.piece (b0 :: rest)).1 with
      | none =>
        rw [Option.map_none]
        show (utf8DecodeFrom fuel rest (s.emit 0xFFFD)).text = _
        rw [ih (by omega), text_emit, codeUnits_replacement, perByte_bad hpiece,
          List.flatMap_cons, List.append_assoc]
      | some c =>
        have hpos := Utf8.piece_pos b0 rest
        rw [Option.map_some]
        show (utf8DecodeFrom fuel ((b0 :: rest).drop (Utf8.piece (b0 :: rest)).2)
          (s.emit c.toNat)).text = _
        have hfuel : ((b0 :: rest).drop (Utf8.piece (b0 :: rest)).2).length ≤ fuel := by
          rw [List.length_drop, List.length_cons]
          omega
        rw [ih hfuel, text_emit, codeUnits_toNat, Utf8.pieces_cons, List.flatMap_cons, perByte,
          hpiece, List.flatMap_append, List.append_assoc]
        simp only [List.flatMap_cons, List.flatMap_nil, List.append_nil]

theorem utf8Decode_eq (bytes : Blob) :
    utf8Decode bytes = ((Utf8.pieces bytes).flatMap perByte).flatMap Utf16.units := by
  rw [utf8Decode, out_flush, text_utf8DecodeFrom (Nat.le_refl _)]
  rfl

/-! ### Beside the standard -/

/-- The byte order mark. -/
def bom : Blob := [0xEF, 0xBB, 0xBF]

/-- The standard's decoder with its default options: a leading byte order mark is removed. -/
def whatwgDecode (bytes : Blob) : Units :=
  (Ipc.Utf8State.idle.decode (if bom.isPrefixOf bytes then bytes.drop 3 else bytes)).flatMap Utf16.units

/-- There is no byte order mark to remove, and every maximal subpart of an ill-formed sequence is
one byte. -/
def DecodesAlike (bytes : Blob) : Prop :=
  bom.isPrefixOf bytes = false ∧ ∀ p ∈ Utf8.pieces bytes, p.1 = none → p.2 = 1

theorem pos_of_mem_pieces {bytes : Blob} {p : Option Char × Nat} (h : p ∈ Utf8.pieces bytes) :
    0 < p.2 := by
  induction hn : bytes.length using Nat.strongRecOn generalizing bytes with
  | ind n ih =>
    cases bytes with
    | nil => simp at h
    | cons b bs =>
      have hpos := Utf8.piece_pos b bs
      rw [Utf8.pieces_cons, List.mem_cons] at h
      obtain rfl | h := h
      · exact hpos
      · refine ih _ ?_ h rfl
        rw [← hn, List.length_drop, List.length_cons]
        omega

theorem perByte_eq {p : Option Char × Nat} (h : p.1 = none → p.2 = 1) :
    perByte p = [ofPiece p] := by
  obtain ⟨o, n⟩ := p
  cases o with
  | some c => rfl
  | none =>
    obtain rfl : n = 1 := h rfl
    rfl

theorem length_perByte {p : Option Char × Nat} (h : 0 < p.2) :
    1 ≤ (perByte p).length ∧ ((perByte p).length = 1 → p.1 = none → p.2 = 1) := by
  obtain ⟨o, n⟩ := p
  cases o with
  | some c => exact ⟨Nat.le_refl 1, fun _ h => by cases h⟩
  | none =>
    rw [perByte, List.length_replicate]
    exact ⟨h, fun hn _ => hn⟩

/-- As many characters as pieces, when the bad ones are one byte, and more otherwise. -/
theorem length_flatMap_perByte {ps : List (Option Char × Nat)} (h : ∀ p ∈ ps, 0 < p.2) :
    ps.length ≤ (ps.flatMap perByte).length ∧
      ((ps.flatMap perByte).length ≤ ps.length → ∀ p ∈ ps, p.1 = none → p.2 = 1) := by
  induction ps with
  | nil => exact ⟨Nat.le_refl 0, by simp⟩
  | cons p ps ih =>
    obtain ⟨hle, hall⟩ := ih fun q hq => h q (List.mem_cons_of_mem _ hq)
    obtain ⟨hone, hp⟩ := length_perByte (h p List.mem_cons_self)
    rw [List.flatMap_cons, List.length_append, List.length_cons]
    refine ⟨by omega, ?_⟩
    intro hlen q hq
    obtain rfl | hq := List.mem_cons.mp hq
    · exact hp (by omega)
    · exact hall (by omega) q hq

theorem flatMap_perByte_eq {ps : List (Option Char × Nat)}
    (h : ∀ p ∈ ps, p.1 = none → p.2 = 1) : ps.flatMap perByte = ps.map ofPiece := by
  induction ps with
  | nil => rfl
  | cons p ps ih =>
    rw [List.flatMap_cons, perByte_eq (h p List.mem_cons_self),
      ih fun q hq => h q (List.mem_cons_of_mem _ hq)]
    rfl

theorem eq_bom_append {bytes : Blob} (h : bom.isPrefixOf bytes = true) :
    bytes = bom ++ bytes.drop 3 := by
  obtain ⟨rest, hrest⟩ := List.isPrefixOf_iff_prefix.mp h
  rw [← hrest]
  rfl

theorem pieces_bom (bytes : Blob) :
    Utf8.pieces (bom ++ bytes) = (some (Char.ofNat 0xFEFF), 3) :: Utf8.pieces bytes := by
  have hbom : bom = String.utf8EncodeChar (Char.ofNat 0xFEFF) := by decide
  rw [hbom, Utf8.pieces_encode]
  rfl

/-- The loop's text is the standard's just when there is nothing to remove and nothing bad of more
than one byte. -/
theorem utf8Decode_eq_iff (bytes : Blob) :
    utf8Decode bytes = whatwgDecode bytes ↔ DecodesAlike bytes := by
  have hpos : ∀ p ∈ Utf8.pieces bytes, 0 < p.2 := fun p => pos_of_mem_pieces
  constructor
  · intro h
    have hchars := congrArg Utf16.scalars h
    rw [utf8Decode_eq, whatwgDecode, Utf16.scalars_flatMap, Utf16.scalars_flatMap,
      Ipc.Utf8State.decode_eq] at hchars
    have hlen := congrArg List.length hchars
    rw [List.length_map] at hlen
    cases hbom : bom.isPrefixOf bytes with
    | true =>
      rw [hbom, if_pos rfl] at hlen
      have hpieces := pieces_bom (bytes.drop 3)
      rw [← eq_bom_append hbom] at hpieces
      have hle := (length_flatMap_perByte hpos).1
      rw [hlen, hpieces, List.length_cons] at hle
      omega
    | false =>
      rw [hbom, if_neg Bool.false_ne_true] at hlen
      exact ⟨hbom, (length_flatMap_perByte hpos).2 (by omega)⟩
  · rintro ⟨hbom, hbad⟩
    rw [utf8Decode_eq, whatwgDecode, hbom, if_neg Bool.false_ne_true, Ipc.Utf8State.decode_eq,
      flatMap_perByte_eq hbad]

/-- `TextDecoder.decode` and `text()` follow the standard on the bytes that begin with no byte
order mark and have no bad piece of more than one byte, and on no others. -/
theorem utf8Decode_eq_whatwg_iff (bytes : Blob) :
    (SettledBody.toText (.bytes bytes) = whatwgDecode bytes ∧
      ∀ input : DecodeInput, input.bytes = some bytes →
        decode input = some (whatwgDecode bytes)) ↔ DecodesAlike bytes := by
  constructor
  · rintro ⟨htext, -⟩
    exact (utf8Decode_eq_iff bytes).mp htext
  · intro h
    have heq := (utf8Decode_eq_iff bytes).mpr h
    refine ⟨heq, ?_⟩
    intro input hinput
    cases input with
    | undefined =>
      obtain rfl : [] = bytes := Option.some.inj hinput
      exact congrArg some heq
    | uint8Array b =>
      obtain rfl : b = bytes := Option.some.inj hinput
      exact congrArg some heq
    | view buffer byteOffset byteLength =>
      obtain rfl : (buffer.drop byteOffset).take byteLength = bytes := Option.some.inj hinput
      exact congrArg some heq
    | arrayBuffer b =>
      obtain rfl : b = bytes := Option.some.inj hinput
      exact congrArg some heq
    | other => cases hinput

/-- Two bytes of the three of U+20AC come out as two replacement characters, and a byte order mark
comes out as itself. -/
theorem utf8Decode_not_whatwg :
    ¬ (∀ bytes : Blob, SettledBody.toText (.bytes bytes) = whatwgDecode bytes) ∧
      SettledBody.toText (.bytes [0xE2, 0x82]) ≠ whatwgDecode [0xE2, 0x82] ∧
      SettledBody.toText (.bytes bom) ≠ whatwgDecode bom := by
  have hcut : SettledBody.toText (.bytes [0xE2, 0x82]) ≠ whatwgDecode [0xE2, 0x82] := by
    decide +kernel
  exact ⟨fun h => hcut (h _), hcut, by decide +kernel⟩

end WebTypes

end Iso4
