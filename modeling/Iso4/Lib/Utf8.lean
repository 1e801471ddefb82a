/-
UTF-8 text in arbitrary bytes.

Bytes fall into pieces: at each place either the encoding of a character, or a maximal subpart,
which is the longest run of bytes there that begins some encoding, and one byte at least.
`piece` is the piece at the head of the bytes with its length.

* `piece_encode`, `encode_of_piece` — the good pieces are the encodings of the characters;
* `piece_append` — what follows a piece does not change it, unless it continues it;
* `piece_tails` — the bytes of a piece after its first begin nothing;
* `pieces_flatMap`, `pieces_append` — the pieces of encodings, and of bytes before them.
-/
import Mathlib.Data.List.Basic
import Mathlib.Tactic.Common

namespace Utf8

/-- A byte as the first of an encoding: its bits, how many bytes follow, and the range of the
next one. -/
def lead (b : Nat) : Option (Nat × Nat × Nat × Nat) :=
  if b < 0x80 then some (b, 0, 0x80, 0xBF)
  else if 0xC2 ≤ b ∧ b ≤ 0xDF then some (b - 0xC0, 1, 0x80, 0xBF)
  else if 0xE0 ≤ b ∧ b ≤ 0xEF then
    some (b - 0xE0, 2, if b = 0xE0 then 0xA0 else 0x80, if b = 0xED then 0x9F else 0xBF)
  else if 0xF0 ≤ b ∧ b ≤ 0xF4 then
    some (b - 0xF0, 3, if b = 0xF0 then 0x90 else 0x80, if b = 0xF4 then 0x8F else 0xBF)
  else none

/-- The bytes of a piece after its first, `needed` of them when it is good. -/
def follow : (needed codePoint lower upper : Nat) → List UInt8 → Option Char × Nat
  | 0, codePoint, _, _, _ => (some (Char.ofNat codePoint), 0)
  | _ + 1, _, _, _, [] => (none, 0)
  | needed + 1, codePoint, lower, upper, b :: bs =>
    if lower ≤ b.toNat ∧ b.toNat ≤ upper then
      let r := follow needed (codePoint * 64 + (b.toNat - 0x80)) 0x80 0xBF bs
      (r.1, r.2 + 1)
    else (none, 0)

/-- The piece at the head: its character, if it is good, and its length. -/
def piece : List UInt8 → Option Char × Nat
  | [] => (none, 0)
  | b :: bs =>
    match lead b.toNat with
    | none => (none, 1)
    | some (bits, needed, lower, upper) =>
      let r := follow needed bits lower upper bs
      (r.1, r.2 + 1)

/-- A byte that only continues an encoding. -/
def IsTail (b : UInt8) : Prop := 0x80 ≤ b.toNat ∧ b.toNat ≤ 0xBF

theorem valid_toNat (c : Char) : c.toNat < 0xD800 ∨ 0xDFFF < c.toNat ∧ c.toNat < 0x110000 := c.valid

theorem toNat_ofNat_of_lt {n : Nat} (h : n < 256) : (UInt8.ofNat n).toNat = n := by
  rw [UInt8.toNat_ofNat', Nat.mod_eq_of_lt h]

theorem lead_one {b : Nat} (h : b < 0x80) : lead b = some (b, 0, 0x80, 0xBF) := if_pos h

theorem lead_two {b : Nat} (h : 0xC2 ≤ b) (h' : b ≤ 0xDF) :
    lead b = some (b - 0xC0, 1, 0x80, 0xBF) := by
  rw [lead, if_neg (by omega), if_pos ⟨h, h'⟩]

theorem lead_three {b : Nat} (h : 0xE0 ≤ b) (h' : b ≤ 0xEF) :
    lead b = some (b - 0xE0, 2, if b = 0xE0 then 0xA0 else 0x80,
      if b = 0xED then 0x9F else 0xBF) := by
  rw [lead, if_neg (by omega), if_neg (by omega), if_pos ⟨h, h'⟩]

theorem lead_four {b : Nat} (h : 0xF0 ≤ b) (h' : b ≤ 0xF4) :
    lead b = some (b - 0xF0, 3, if b = 0xF0 then 0x90 else 0x80,
      if b = 0xF4 then 0x8F else 0xBF) := by
  rw [lead, if_neg (by omega), if_neg (by omega), if_neg (by omega), if_pos ⟨h, h'⟩]

theorem follow_cons {needed codePoint lower upper n : Nat} {b : UInt8} {bs : List UInt8}
    {o : Option Char} (hlower : lower ≤ b.toNat) (hupper : b.toNat ≤ upper)
    (h : follow needed (codePoint * 64 + (b.toNat - 0x80)) 0x80 0xBF bs = (o, n)) :
    follow (needed + 1) codePoint lower upper (b :: bs) = (o, n + 1) := by
  rw [follow, if_pos ⟨hlower, hupper⟩, h]

theorem piece_cons {bits needed lower upper n : Nat} {b : UInt8} {bs : List UInt8}
    {o : Option Char} (hlead : lead b.toNat = some (bits, needed, lower, upper))
    (h : follow needed bits lower upper bs = (o, n)) : piece (b :: bs) = (o, n + 1) := by
  simp only [piece, hlead, h]

/-- The encoding of a character is a piece. -/
theorem piece_encode (c : Char) (bs : List UInt8) :
    piece (String.utf8EncodeChar c ++ bs) = (some c, (String.utf8EncodeChar c).length) := by
  have hvalid := valid_toNat c
  have hval : c.val.toNat = c.toNat := rfl
  have hchar : ∀ n, n = c.toNat → (some (Char.ofNat n), 0) = (some c, 0) := by
    rintro n rfl
    rw [Char.ofNat_toNat]
  have htail : ∀ n, (UInt8.ofNat (n % 64 + 128)).toNat = n % 64 + 128 :=
    fun n => toNat_ofNat_of_lt (by omega)
  simp only [String.utf8EncodeChar, hval]
  split
  · have hfirst : (UInt8.ofNat c.toNat).toNat = c.toNat := toNat_ofNat_of_lt (by omega)
    refine piece_cons (lead_one (by omega)) ?_
    exact hchar _ hfirst
  · split
    · have hfirst : (UInt8.ofNat (c.toNat / 64 % 32 + 192)).toNat = c.toNat / 64 + 192 := by
        rw [toNat_ofNat_of_lt (by omega)]
        omega
      refine piece_cons (lead_two (by omega) (by omega)) ?_
      refine follow_cons (by rw [htail]; omega) (by rw [htail]; omega) (hchar _ ?_)
      rw [htail, hfirst]
      omega
    · split
      · have hfirst : (UInt8.ofNat (c.toNat / 4096 % 16 + 224)).toNat = c.toNat / 4096 + 224 := by
          rw [toNat_ofNat_of_lt (by omega)]
          omega
        refine piece_cons (lead_three (by omega) (by omega)) ?_
        refine follow_cons (by rw [htail, hfirst]; split <;> omega)
          (by rw [htail, hfirst]; split <;> omega) ?_
        refine follow_cons (by rw [htail]; omega) (by rw [htail]; omega) (hchar _ ?_)
        rw [htail, htail, hfirst]
        omega
      · have hfirst : (UInt8.ofNat (c.toNat / 262144 % 8 + 240)).toNat =
            c.toNat / 262144 + 240 := by
          rw [toNat_ofNat_of_lt (by omega)]
          omega
        refine piece_cons (lead_four (by omega) (by omega)) ?_
        refine follow_cons (by rw [htail, hfirst]; split <;> omega)
          (by rw [htail, hfirst]; split <;> omega) ?_
        refine follow_cons (by rw [htail]; omega) (by rw [htail]; omega) ?_
        refine follow_cons (by rw [htail]; omega) (by rw [htail]; omega) (hchar _ ?_)
        rw [htail, htail, htail, hfirst]
        omega

theorem follow_succ {needed codePoint lower upper n : Nat} {bs : List UInt8} {c : Char}
    (h : follow (needed + 1) codePoint lower upper bs = (some c, n)) :
    ∃ b bs' n', bs = b :: bs' ∧ lower ≤ b.toNat ∧ b.toNat ≤ upper ∧ n = n' + 1 ∧
      follow needed (codePoint * 64 + (b.toNat - 0x80)) 0x80 0xBF bs' = (some c, n') := by
  cases bs with
  | nil => simp [follow] at h
  | cons b bs =>
    by_cases hb : lower ≤ b.toNat ∧ b.toNat ≤ upper
    · rw [follow, if_pos hb] at h
      obtain ⟨hchar, hn⟩ := Prod.mk.inj h
      exact ⟨b, bs, _, rfl, hb.1, hb.2, hn.symm, Prod.ext hchar rfl⟩
    · rw [follow, if_neg hb] at h
      simp at h

theorem follow_zero {codePoint lower upper n : Nat} {bs : List UInt8} {c : Char}
    (h : follow 0 codePoint lower upper bs = (some c, n)) : c = Char.ofNat codePoint ∧ n = 0 := by
  obtain ⟨hchar, hn⟩ := Prod.mk.inj h
  exact ⟨(Option.some.inj hchar).symm, hn.symm⟩

/-- A good piece has all the bytes it needs. -/
theorem follow_length {needed codePoint lower upper n : Nat} {bs : List UInt8} {c : Char}
    (h : follow needed codePoint lower upper bs = (some c, n)) : n = needed := by
  induction needed generalizing codePoint lower upper n bs with
  | zero => exact (follow_zero h).2
  | succ needed ih =>
    obtain ⟨b, bs', n', -, -, -, rfl, hrest⟩ := follow_succ h
    rw [ih hrest]

theorem toNat_ofNat_of_valid {n : Nat} (h : n < 0xD800 ∨ 0xDFFF < n ∧ n < 0x110000) :
    (Char.ofNat n).toNat = n := by
  have hvalid : n.isValidChar := h
  rw [Char.ofNat, dif_pos hvalid]
  rfl

theorem ofNat_eq_of_toNat {n : Nat} {b : UInt8} (h : n = b.toNat) : UInt8.ofNat n = b := by
  rw [h, UInt8.ofNat_toNat]

theorem lead_cases {b bits needed lower upper : Nat}
    (h : lead b = some (bits, needed, lower, upper)) :
    (b < 0x80 ∧ bits = b ∧ needed = 0) ∨
      (0xC2 ≤ b ∧ b ≤ 0xDF ∧ bits = b - 0xC0 ∧ needed = 1 ∧ lower = 0x80 ∧ upper = 0xBF) ∨
      (0xE0 ≤ b ∧ b ≤ 0xEF ∧ bits = b - 0xE0 ∧ needed = 2 ∧
        (lower = if b = 0xE0 then 0xA0 else 0x80) ∧ upper = if b = 0xED then 0x9F else 0xBF) ∨
      (0xF0 ≤ b ∧ b ≤ 0xF4 ∧ bits = b - 0xF0 ∧ needed = 3 ∧
        (lower = if b = 0xF0 then 0x90 else 0x80) ∧ upper = if b = 0xF4 then 0x8F else 0xBF) := by
  simp only [lead] at h
  split at h
  · simp only [Option.some.injEq, Prod.mk.injEq] at h
    exact Or.inl ⟨by assumption, h.1.symm, h.2.1.symm⟩
  · split at h
    · next hb =>
      simp only [Option.some.injEq, Prod.mk.injEq] at h
      obtain ⟨rfl, rfl, rfl, rfl⟩ := h
      exact Or.inr (Or.inl ⟨hb.1, hb.2, rfl, rfl, rfl, rfl⟩)
    · split at h
      · next hb =>
        simp only [Option.some.injEq, Prod.mk.injEq] at h
        obtain ⟨rfl, rfl, rfl, rfl⟩ := h
        exact Or.inr (Or.inr (Or.inl ⟨hb.1, hb.2, rfl, rfl, rfl, rfl⟩))
      · split at h
        · next hb =>
          simp only [Option.some.injEq, Prod.mk.injEq] at h
          obtain ⟨rfl, rfl, rfl, rfl⟩ := h
          exact Or.inr (Or.inr (Or.inr ⟨hb.1, hb.2, rfl, rfl, rfl, rfl⟩))
        · cases h

/-- A good piece is the encoding of its character. -/
theorem encode_of_piece {bs : List UInt8} {c : Char} {n : Nat} (h : piece bs = (some c, n)) :
    (String.utf8EncodeChar c).length = n ∧ String.utf8EncodeChar c ++ bs.drop n = bs := by
  cases bs with
  | nil => simp [piece] at h
  | cons b bs =>
    have hval : c.val.toNat = c.toNat := rfl
    cases hlead : lead b.toNat with
    | none => simp [piece, hlead] at h
    | some r =>
      obtain ⟨bits, needed, lower, upper⟩ := r
      simp only [piece, hlead] at h
      obtain ⟨hchar, rfl⟩ := Prod.mk.inj h
      have hfollow : follow needed bits lower upper bs =
          (some c, (follow needed bits lower upper bs).2) := Prod.ext hchar rfl
      generalize (follow needed bits lower upper bs).2 = n at hfollow ⊢
      obtain ⟨hb, hbits, hneeded⟩ | ⟨hb, hb', hbits, hneeded, hlower, hupper⟩ |
        ⟨hb, hb', hbits, hneeded, hlower, hupper⟩ |
        ⟨hb, hb', hbits, hneeded, hlower, hupper⟩ := lead_cases hlead
      · rw [hbits, hneeded] at hfollow
        obtain ⟨hofNat, rfl⟩ := follow_zero hfollow
        have hc := toNat_ofNat_of_valid (n := b.toNat) (by omega)
        rw [← hofNat] at hc
        simp only [String.utf8EncodeChar, hval, hc]
        rw [if_pos (by omega), UInt8.ofNat_toNat]
        exact ⟨rfl, rfl⟩
      · rw [hbits, hneeded, hlower, hupper] at hfollow
        obtain ⟨b1, bs1, n1, rfl, h1, h1', rfl, hrest⟩ := follow_succ hfollow
        obtain ⟨hofNat, rfl⟩ := follow_zero hrest
        have hc := toNat_ofNat_of_valid
          (n := (b.toNat - 0xC0) * 64 + (b1.toNat - 0x80)) (by omega)
        rw [← hofNat] at hc
        simp only [String.utf8EncodeChar, hval, hc]
        rw [if_neg (by omega), if_pos (by omega), ofNat_eq_of_toNat (b := b) (by omega),
          ofNat_eq_of_toNat (b := b1) (by omega)]
        exact ⟨rfl, rfl⟩
      · rw [hbits, hneeded, hlower, hupper] at hfollow
        obtain ⟨b1, bs1, n1, rfl, h1, h1', rfl, hrest⟩ := follow_succ hfollow
        obtain ⟨b2, bs2, n2, rfl, h2, h2', rfl, hrest'⟩ := follow_succ hrest
        obtain ⟨hofNat, rfl⟩ := follow_zero hrest'
        have hc := toNat_ofNat_of_valid
          (n := ((b.toNat - 0xE0) * 64 + (b1.toNat - 0x80)) * 64 + (b2.toNat - 0x80))
          (by split at h1 <;> split at h1' <;> omega)
        rw [← hofNat] at hc
        simp only [String.utf8EncodeChar, hval, hc]
        rw [if_neg (by split at h1 <;> omega), if_neg (by split at h1 <;> omega),
          if_pos (by split at h1' <;> omega), ofNat_eq_of_toNat (b := b) (by split at h1' <;> omega),
          ofNat_eq_of_toNat (b := b1) (by split at h1' <;> split at h1 <;> omega),
          ofNat_eq_of_toNat (b := b2) (by omega)]
        exact ⟨rfl, rfl⟩
      · rw [hbits, hneeded, hlower, hupper] at hfollow
        obtain ⟨b1, bs1, n1, rfl, h1, h1', rfl, hrest⟩ := follow_succ hfollow
        obtain ⟨b2, bs2, n2, rfl, h2, h2', rfl, hrest'⟩ := follow_succ hrest
        obtain ⟨b3, bs3, n3, rfl, h3, h3', rfl, hrest''⟩ := follow_succ hrest'
        obtain ⟨hofNat, rfl⟩ := follow_zero hrest''
        have hc := toNat_ofNat_of_valid
          (n := (((b.toNat - 0xF0) * 64 + (b1.toNat - 0x80)) * 64 + (b2.toNat - 0x80)) * 64 +
            (b3.toNat - 0x80))
          (by split at h1 <;> split at h1' <;> omega)
        rw [← hofNat] at hc
        simp only [String.utf8EncodeChar, hval, hc]
        rw [if_neg (by split at h1 <;> omega), if_neg (by split at h1 <;> omega),
          if_neg (by split at h1 <;> omega),
          ofNat_eq_of_toNat (b := b) (by split at h1' <;> omega),
          ofNat_eq_of_toNat (b := b1) (by split at h1' <;> split at h1 <;> omega),
          ofNat_eq_of_toNat (b := b2) (by split at h1 <;> omega),
          ofNat_eq_of_toNat (b := b3) (by omega)]
        exact ⟨rfl, rfl⟩

/-! ### Where pieces end -/

theorem lead_tail {b : UInt8} (h : IsTail b) : lead b.toNat = none := by
  obtain ⟨hlower, hupper⟩ := h
  rw [lead, if_neg (by omega), if_neg (by omega), if_neg (by omega), if_neg (by omega)]

theorem piece_tail {b : UInt8} (h : IsTail b) (bs : List UInt8) : piece (b :: bs) = (none, 1) := by
  simp only [piece, lead_tail h]

/-- An encoding does not begin with a tail. -/
theorem not_tail_of_encode {c : Char} {b : UInt8} {bs : List UInt8}
    (h : String.utf8EncodeChar c = b :: bs) : ¬ IsTail b := by
  intro htail
  have hpiece := piece_encode c []
  rw [h, List.cons_append, piece_tail htail] at hpiece
  cases (Prod.mk.inj hpiece).1

/-- The bytes that `follow` takes are tails. -/
theorem follow_tails {needed codePoint lower upper : Nat} {bs : List UInt8} (hlower : 0x80 ≤ lower)
    (hupper : upper ≤ 0xBF) :
    (follow needed codePoint lower upper bs).2 ≤ bs.length ∧
      ∀ b ∈ bs.take (follow needed codePoint lower upper bs).2, IsTail b := by
  induction bs generalizing needed codePoint lower upper with
  | nil =>
    cases needed with
    | zero => simp [follow]
    | succ needed => simp [follow]
  | cons b bs ih =>
    cases needed with
    | zero => simp [follow]
    | succ needed =>
      by_cases hb : lower ≤ b.toNat ∧ b.toNat ≤ upper
      · rw [follow, if_pos hb]
        obtain ⟨hle, htails⟩ := @ih needed (codePoint * 64 + (b.toNat - 0x80)) 0x80 0xBF
          (Nat.le_refl 0x80) (Nat.le_refl 0xBF)
        refine ⟨Nat.succ_le_succ hle, ?_⟩
        intro x hx
        rw [List.take_succ_cons, List.mem_cons] at hx
        obtain rfl | hx := hx
        · exact ⟨Nat.le_trans hlower hb.1, Nat.le_trans hb.2 hupper⟩
        · exact htails x hx
      · rw [follow, if_neg hb]
        simp

theorem lead_range {b bits needed lower upper : Nat}
    (h : lead b = some (bits, needed, lower, upper)) (hneeded : needed ≠ 0) :
    0x80 ≤ lower ∧ upper ≤ 0xBF := by
  obtain ⟨-, -, hzero⟩ | ⟨-, -, -, -, hlower, hupper⟩ | ⟨-, -, -, -, hlower, hupper⟩ |
    ⟨-, -, -, -, hlower, hupper⟩ := lead_cases h
  · exact absurd hzero hneeded
  · omega
  · constructor
    · split at hlower <;> omega
    · split at hupper <;> omega
  · constructor
    · split at hlower <;> omega
    · split at hupper <;> omega

/-- The bytes of a piece after its first are tails. -/
theorem piece_tails (b : UInt8) (bs : List UInt8) :
    ∃ n, (piece (b :: bs)).2 = n + 1 ∧ n ≤ bs.length ∧ ∀ x ∈ bs.take n, IsTail x := by
  cases hlead : lead b.toNat with
  | none => exact ⟨0, by simp only [piece, hlead], Nat.zero_le _, by simp⟩
  | some r =>
    obtain ⟨bits, needed, lower, upper⟩ := r
    refine ⟨(follow needed bits lower upper bs).2, by simp only [piece, hlead], ?_⟩
    cases needed with
    | zero => simp [follow]
    | succ needed =>
      obtain ⟨hlower, hupper⟩ := lead_range hlead (by simp)
      exact follow_tails hlower hupper

/-- What follows does not change a piece unless it continues it. -/
theorem follow_append {needed codePoint lower upper : Nat} {as bs : List UInt8}
    (hlower : needed ≠ 0 → 0x80 ≤ lower) (hupper : needed ≠ 0 → upper ≤ 0xBF)
    (hbs : ∀ b ∈ bs.head?, ¬ IsTail b) :
    follow needed codePoint lower upper (as ++ bs) = follow needed codePoint lower upper as := by
  induction as generalizing needed codePoint lower upper with
  | nil =>
    cases needed with
    | zero => rfl
    | succ needed =>
      cases bs with
      | nil => rfl
      | cons b bs =>
        have hb : ¬ (lower ≤ b.toNat ∧ b.toNat ≤ upper) := by
          rintro ⟨hlo, hhi⟩
          have := hlower (by simp)
          have := hupper (by simp)
          exact hbs b (by simp) ⟨by omega, by omega⟩
        show follow (needed + 1) codePoint lower upper (b :: bs) = (none, 0)
        simp only [follow, if_neg hb]
  | cons a as ih =>
    cases needed with
    | zero => rfl
    | succ needed =>
      rw [List.cons_append, follow, follow]
      split
      · rw [ih (fun _ => Nat.le_refl _) fun _ => Nat.le_refl _]
      · rfl

theorem piece_append (a : UInt8) (as : List UInt8) {bs : List UInt8} (hbs : ∀ b ∈ bs.head?, ¬ IsTail b) :
    piece (a :: as ++ bs) = piece (a :: as) := by
  rw [List.cons_append]
  cases hlead : lead a.toNat with
  | none => simp only [piece, hlead]
  | some r =>
    obtain ⟨bits, needed, lower, upper⟩ := r
    simp only [piece, hlead]
    rw [follow_append (fun h => (lead_range hlead h).1) (fun h => (lead_range hlead h).2) hbs]

/-! ### All the pieces -/

theorem piece_pos (b : UInt8) (bs : List UInt8) : 0 < (piece (b :: bs)).2 := by
  obtain ⟨n, hn, -⟩ := piece_tails b bs
  omega

theorem piece_le (b : UInt8) (bs : List UInt8) : (piece (b :: bs)).2 ≤ (b :: bs).length := by
  obtain ⟨n, hn, hle, -⟩ := piece_tails b bs
  rw [List.length_cons]
  omega

def pieces : List UInt8 → List (Option Char × Nat)
  | [] => []
  | b :: bs => piece (b :: bs) :: pieces ((b :: bs).drop (piece (b :: bs)).2)
termination_by bs => bs.length
decreasing_by
  have := piece_pos b bs
  rw [List.length_drop, List.length_cons]
  omega

@[simp] theorem pieces_nil : pieces [] = [] := by rw [pieces]

theorem pieces_cons (b : UInt8) (bs : List UInt8) :
    pieces (b :: bs) = piece (b :: bs) :: pieces ((b :: bs).drop (piece (b :: bs)).2) := by
  rw [pieces]

theorem pieces_tails {ts : List UInt8} (h : ∀ x ∈ ts, IsTail x) (bs : List UInt8) :
    pieces (ts ++ bs) = ts.map (fun _ => (none, 1)) ++ pieces bs := by
  induction ts with
  | nil => rfl
  | cons t ts ih =>
    rw [List.cons_append, pieces_cons, piece_tail (h t List.mem_cons_self)]
    exact congrArg _ (ih fun x hx => h x (List.mem_cons_of_mem _ hx))

theorem encode_ne_nil (c : Char) : String.utf8EncodeChar c ≠ [] := by
  intro h
  have := String.length_utf8EncodeChar c
  rw [h] at this
  simp only [Char.utf8Size, List.length_nil] at this
  split at this
  · omega
  · split at this
    · omega
    · split at this <;> omega

theorem pieces_encode (c : Char) (bs : List UInt8) :
    pieces (String.utf8EncodeChar c ++ bs) =
      (some c, (String.utf8EncodeChar c).length) :: pieces bs := by
  have hpiece := piece_encode c bs
  have hdrop : (String.utf8EncodeChar c ++ bs).drop (String.utf8EncodeChar c).length = bs :=
    List.drop_left
  generalize hall : String.utf8EncodeChar c ++ bs = all at hpiece hdrop
  cases all with
  | nil => exact absurd (List.append_eq_nil_iff.mp hall).1 (encode_ne_nil c)
  | cons b rest => rw [pieces_cons, hpiece, hdrop]

/-- The pieces of an encoded text are its characters. -/
theorem pieces_flatMap (cs : List Char) (bs : List UInt8) :
    pieces (cs.flatMap String.utf8EncodeChar ++ bs) =
      cs.map (fun c => (some c, (String.utf8EncodeChar c).length)) ++ pieces bs := by
  induction cs with
  | nil => rfl
  | cons c cs ih =>
    rw [List.flatMap_cons, List.append_assoc, pieces_encode, ih]
    rfl

theorem not_tail_head (cs : List Char) :
    ∀ b ∈ (cs.flatMap String.utf8EncodeChar).head?, ¬ IsTail b := by
  cases cs with
  | nil => simp
  | cons c cs =>
    intro b hb
    rw [List.flatMap_cons] at hb
    cases hc : String.utf8EncodeChar c with
    | nil => exact absurd hc (encode_ne_nil c)
    | cons b' bs' =>
      rw [hc, List.cons_append, List.head?_cons, Option.mem_some_iff] at hb
      rw [← hb]
      exact not_tail_of_encode hc

/-- What begins with no tail leaves the pieces before it as they are. -/
theorem pieces_append {bs : List UInt8} (hbs : ∀ b ∈ bs.head?, ¬ IsTail b) (as : List UInt8) :
    pieces (as ++ bs) = pieces as ++ pieces bs := by
  induction hn : as.length using Nat.strongRecOn generalizing as with
  | ind n ih =>
    cases as with
    | nil => simp
    | cons a as =>
      have hpos := piece_pos a as
      have hle := piece_le a as
      have hpiece := piece_append a as hbs
      rw [List.cons_append] at hpiece ⊢
      rw [pieces_cons, pieces_cons, hpiece, ← List.cons_append,
        List.drop_append_of_le_length hle, List.cons_append]
      refine congrArg _ (ih _ ?_ _ rfl)
      rw [List.length_drop]
      omega

/-- A byte in front adds one piece at most. -/
theorem length_pieces_cons (b : UInt8) (bs : List UInt8) :
    (pieces (b :: bs)).length ≤ (pieces bs).length + 1 := by
  obtain ⟨n, hn, hle, htails⟩ := piece_tails b bs
  have hsplit : pieces bs = (bs.take n).map (fun _ => (none, 1)) ++ pieces (bs.drop n) := by
    rw [← pieces_tails htails, List.take_append_drop]
  rw [pieces_cons, hn, List.drop_succ_cons, List.length_cons, hsplit, List.length_append]
  omega

/-- A byte of an encoding below 0x80 is all of it. -/
theorem encode_of_ascii_mem {c : Char} {b : UInt8} (h : b ∈ String.utf8EncodeChar c)
    (hb : b.toNat < 0x80) : c.toNat = b.toNat ∧ String.utf8EncodeChar c = [b] := by
  have hval : c.val.toNat = c.toNat := rfl
  have htail : ∀ n, (UInt8.ofNat (n % 64 + 128)).toNat = n % 64 + 128 :=
    fun n => toNat_ofNat_of_lt (by omega)
  have hfirst : ∀ n k, 128 ≤ k → n + k < 256 → (UInt8.ofNat (n + k)).toNat = n + k :=
    fun n k _ hlt => toNat_ofNat_of_lt hlt
  simp only [String.utf8EncodeChar, hval] at h ⊢
  split at h
  · next hle =>
    rw [List.mem_singleton] at h
    have hc : b.toNat = c.toNat := by
      rw [h]
      exact toNat_ofNat_of_lt (by omega)
    rw [if_pos hle, ← h]
    exact ⟨hc.symm, rfl⟩
  · exfalso
    split at h
    · simp only [List.mem_cons, List.not_mem_nil, or_false] at h
      obtain rfl | rfl := h
      · rw [hfirst _ 192 (by omega) (by omega)] at hb
        omega
      · rw [htail] at hb
        omega
    · split at h
      · simp only [List.mem_cons, List.not_mem_nil, or_false] at h
        obtain rfl | rfl | rfl := h
        · rw [hfirst _ 224 (by omega) (by omega)] at hb
          omega
        · rw [htail] at hb
          omega
        · rw [htail] at hb
          omega
      · simp only [List.mem_cons, List.not_mem_nil, or_false] at h
        obtain rfl | rfl | rfl | rfl := h
        · rw [hfirst _ 240 (by omega) (by omega)] at hb
          omega
        · rw [htail] at hb
          omega
        · rw [htail] at hb
          omega
        · rw [htail] at hb
          omega

theorem encode_ascii {c : Char} (h : c.toNat < 0x80) :
    String.utf8EncodeChar c = [UInt8.ofNat c.toNat] := by
  have hval : c.val.toNat = c.toNat := rfl
  simp only [String.utf8EncodeChar, hval]
  rw [if_pos (by omega)]

end Utf8
