/-
Text as UTF-16 units, with unpaired surrogates in it or not.

* `units` — the units of a character;
* `scalars` — the characters of a list of units, U+FFFD for each unpaired surrogate;
* `toWellFormed` — a list of units with U+FFFD for each unpaired surrogate;
* `scalars_flatMap` — the units of characters give the characters back;
* `flatMap_scalars` — the characters of units give the well-formed units back;
* `isWellFormed_iff` — the units of characters are the ones without an unpaired surrogate.
-/
import Mathlib.Data.List.Basic
import Mathlib.Tactic.Common

namespace Utf16

def isHigh (u : UInt16) : Bool := 0xD800 ≤ u.toNat && u.toNat ≤ 0xDBFF

def isLow (u : UInt16) : Bool := 0xDC00 ≤ u.toNat && u.toNat ≤ 0xDFFF

def isSurrogate (u : UInt16) : Bool := 0xD800 ≤ u.toNat && u.toNat ≤ 0xDFFF

/-- The replacement character. -/
def replacement : Char := Char.ofNat 0xFFFD

/-- The units of a character. -/
def units (c : Char) : List UInt16 :=
  if c.toNat ≤ 0xFFFF then [UInt16.ofNat c.toNat]
  else
    [UInt16.ofNat (0xD800 + (c.toNat - 0x10000) / 1024),
      UInt16.ofNat (0xDC00 + (c.toNat - 0x10000) % 1024)]

/-- The character of a surrogate pair. -/
def pair (u v : UInt16) : Char :=
  Char.ofNat (0x10000 + (u.toNat - 0xD800) * 1024 + (v.toNat - 0xDC00))

/-- The character of a unit that is in no pair. -/
def unit (u : UInt16) : Char := if isSurrogate u then replacement else Char.ofNat u.toNat

/-- The characters of a string. -/
def scalars : List UInt16 → List Char
  | [] => []
  | [u] => [unit u]
  | u :: v :: us => if isHigh u && isLow v then pair u v :: scalars us else unit u :: scalars (v :: us)

/-- A unit that is in no pair, as text. -/
def plain (u : UInt16) : UInt16 := if isSurrogate u then 0xFFFD else u

/-- U+FFFD for each unpaired surrogate. -/
def toWellFormed : List UInt16 → List UInt16
  | [] => []
  | [u] => [plain u]
  | u :: v :: us =>
    if isHigh u && isLow v then u :: v :: toWellFormed us else plain u :: toWellFormed (v :: us)

/-- There is no unpaired surrogate. -/
def isWellFormed : List UInt16 → Bool
  | [] => true
  | [u] => !isSurrogate u
  | u :: v :: us =>
    if isHigh u && isLow v then isWellFormed us else !isSurrogate u && isWellFormed (v :: us)

theorem toNat_ofNat_of_lt {n : Nat} (h : n < 65536) : (UInt16.ofNat n).toNat = n := by
  rw [UInt16.toNat_ofNat', Nat.mod_eq_of_lt h]

theorem toNat_ofNat_of_valid {n : Nat} (h : n < 0xD800 ∨ 0xDFFF < n ∧ n < 0x110000) :
    (Char.ofNat n).toNat = n := by
  have hvalid : n.isValidChar := h
  rw [Char.ofNat, dif_pos hvalid]
  rfl

theorem isHigh_iff {u : UInt16} : isHigh u = true ↔ 0xD800 ≤ u.toNat ∧ u.toNat ≤ 0xDBFF := by
  simp [isHigh]

theorem isLow_iff {u : UInt16} : isLow u = true ↔ 0xDC00 ≤ u.toNat ∧ u.toNat ≤ 0xDFFF := by
  simp [isLow]

theorem isSurrogate_iff {u : UInt16} :
    isSurrogate u = true ↔ 0xD800 ≤ u.toNat ∧ u.toNat ≤ 0xDFFF := by
  simp [isSurrogate]

theorem toNat_pair {u v : UInt16} (hu : isHigh u = true) (hv : isLow v = true) :
    (pair u v).toNat = 0x10000 + (u.toNat - 0xD800) * 1024 + (v.toNat - 0xDC00) := by
  rw [isHigh_iff] at hu
  rw [isLow_iff] at hv
  exact toNat_ofNat_of_valid (by omega)

theorem units_pair {u v : UInt16} (hu : isHigh u = true) (hv : isLow v = true) :
    units (pair u v) = [u, v] := by
  have hc := toNat_pair hu hv
  rw [isHigh_iff] at hu
  rw [isLow_iff] at hv
  have hfirst : 0xD800 + ((pair u v).toNat - 0x10000) / 1024 = u.toNat := by omega
  have hsecond : 0xDC00 + ((pair u v).toNat - 0x10000) % 1024 = v.toNat := by omega
  rw [units, if_neg (by omega), hfirst, hsecond, UInt16.ofNat_toNat, UInt16.ofNat_toNat]

theorem unit_plain {u : UInt16} (hu : isSurrogate u = false) : unit u = Char.ofNat u.toNat :=
  if_neg (by simp [hu])

theorem units_unit {u : UInt16} (hu : isSurrogate u = false) : units (unit u) = [u] := by
  have hlt : u.toNat < 65536 := u.toNat_lt
  have hne : ¬ (0xD800 ≤ u.toNat ∧ u.toNat ≤ 0xDFFF) := by
    rw [← isSurrogate_iff, hu]
    simp
  have hc : (Char.ofNat u.toNat).toNat = u.toNat := toNat_ofNat_of_valid (by omega)
  rw [unit, if_neg (by simp [hu]), units, hc, if_pos (by omega), UInt16.ofNat_toNat]

theorem scalars_cons {u : UInt16} (hu : isHigh u = false) (us : List UInt16) :
    scalars (u :: us) = unit u :: scalars us := by
  cases us with
  | nil => rfl
  | cons v us =>
    rw [scalars, if_neg (by simp [hu])]

theorem scalars_pair {u v : UInt16} (hu : isHigh u = true) (hv : isLow v = true)
    (us : List UInt16) : scalars (u :: v :: us) = pair u v :: scalars us := by
  rw [scalars, if_pos (by simp [hu, hv])]

theorem scalars_units (c : Char) (us : List UInt16) : scalars (units c ++ us) = c :: scalars us := by
  have hvalid : c.toNat < 0xD800 ∨ 0xDFFF < c.toNat ∧ c.toNat < 0x110000 := c.valid
  unfold units
  split
  · next hle =>
    have hu : (UInt16.ofNat c.toNat).toNat = c.toNat := toNat_ofNat_of_lt (by omega)
    have hplain : isSurrogate (UInt16.ofNat c.toNat) = false := by
      rw [← Bool.not_eq_true, isSurrogate_iff, hu]
      omega
    have hhigh : isHigh (UInt16.ofNat c.toNat) = false := by
      rw [← Bool.not_eq_true, isHigh_iff, hu]
      omega
    rw [List.cons_append, List.nil_append, scalars_cons hhigh, unit, if_neg (by simp [hplain]), hu,
      Char.ofNat_toNat]
  · next hle =>
    have hu : (UInt16.ofNat (0xD800 + (c.toNat - 0x10000) / 1024)).toNat =
        0xD800 + (c.toNat - 0x10000) / 1024 := toNat_ofNat_of_lt (by omega)
    have hv : (UInt16.ofNat (0xDC00 + (c.toNat - 0x10000) % 1024)).toNat =
        0xDC00 + (c.toNat - 0x10000) % 1024 := toNat_ofNat_of_lt (by omega)
    have hpair : pair (UInt16.ofNat (0xD800 + (c.toNat - 0x10000) / 1024))
        (UInt16.ofNat (0xDC00 + (c.toNat - 0x10000) % 1024)) = c := by
      rw [pair, hu, hv]
      rw [show 0x10000 + (0xD800 + (c.toNat - 0x10000) / 1024 - 0xD800) * 1024 +
        (0xDC00 + (c.toNat - 0x10000) % 1024 - 0xDC00) = c.toNat by omega, Char.ofNat_toNat]
    rw [List.cons_append, List.cons_append, List.nil_append,
      scalars_pair (isHigh_iff.mpr (by omega)) (isLow_iff.mpr (by omega)), hpair]

/-- The units of characters give the characters back. -/
@[simp] theorem scalars_flatMap (cs : List Char) : scalars (cs.flatMap units) = cs := by
  induction cs with
  | nil => rfl
  | cons c cs ih => rw [List.flatMap_cons, scalars_units, ih]

theorem scalars_unpaired {u v : UInt16} (h : (isHigh u && isLow v) = false) (us : List UInt16) :
    scalars (u :: v :: us) = unit u :: scalars (v :: us) := by
  rw [scalars, if_neg (by simp [h])]

theorem units_unit_eq (u : UInt16) : units (unit u) = [plain u] := by
  cases hu : isSurrogate u with
  | true =>
    rw [unit, plain, if_pos hu, if_pos hu]
    decide
  | false =>
    rw [units_unit hu, plain, if_neg (by simp [hu])]

/-- The characters of units give the well-formed units back. -/
theorem flatMap_scalars (us : List UInt16) : (scalars us).flatMap units = toWellFormed us := by
  induction us using toWellFormed.induct with
  | case1 => rfl
  | case2 u => rw [scalars, toWellFormed, List.flatMap_singleton, units_unit_eq]
  | case3 u v us hpair ih =>
    obtain ⟨hu, hv⟩ := Bool.and_eq_true_iff.mp hpair
    rw [scalars_pair hu hv, toWellFormed, if_pos hpair, List.flatMap_cons, units_pair hu hv, ih]
    rfl
  | case4 u v us hpair ih =>
    rw [scalars_unpaired (Bool.eq_false_iff.mpr hpair), toWellFormed, if_neg hpair,
      List.flatMap_cons, units_unit_eq, ih]
    rfl

/-! ### Well-formed text -/

theorem isSurrogate_of_high {u : UInt16} (h : isHigh u = true) : isSurrogate u = true := by
  rw [isHigh_iff] at h
  rw [isSurrogate_iff]
  omega

theorem isSurrogate_of_low {u : UInt16} (h : isLow u = true) : isSurrogate u = true := by
  rw [isLow_iff] at h
  rw [isSurrogate_iff]
  omega

theorem isHigh_of_plain {u : UInt16} (h : isSurrogate u = false) : isHigh u = false := by
  rw [← Bool.not_eq_true]
  intro hu
  rw [isSurrogate_of_high hu] at h
  cases h

theorem isLow_of_plain {u : UInt16} (h : isSurrogate u = false) : isLow u = false := by
  rw [← Bool.not_eq_true]
  intro hu
  rw [isSurrogate_of_low hu] at h
  cases h

theorem isLow_of_high {u : UInt16} (h : isHigh u = true) : isLow u = false := by
  rw [isHigh_iff] at h
  rw [← Bool.not_eq_true, isLow_iff]
  omega

theorem isWellFormed_plain {u : UInt16} (h : isSurrogate u = false) (us : List UInt16) :
    isWellFormed (u :: us) = isWellFormed us := by
  cases us with
  | nil => simp [isWellFormed, h]
  | cons v us => simp [isWellFormed, isHigh_of_plain h, h]

theorem isWellFormed_pair {u v : UInt16} (hu : isHigh u = true) (hv : isLow v = true)
    (us : List UInt16) : isWellFormed (u :: v :: us) = isWellFormed us := by
  rw [isWellFormed, if_pos (by simp [hu, hv])]

theorem isWellFormed_unpaired {u v : UInt16} (h : ¬ (isHigh u && isLow v) = true)
    (us : List UInt16) :
    isWellFormed (u :: v :: us) = (!isSurrogate u && isWellFormed (v :: us)) := if_neg h

/-- A surrogate at the head of well-formed text is the first of a pair. -/
theorem pair_of_isWellFormed {u : UInt16} {us : List UInt16}
    (h : isWellFormed (u :: us) = true) (hu : isSurrogate u = true) :
    ∃ v vs, us = v :: vs ∧ isHigh u = true ∧ isLow v = true ∧ isWellFormed vs = true := by
  cases us with
  | nil => simp [isWellFormed, hu] at h
  | cons v vs =>
    by_cases hpair : (isHigh u && isLow v) = true
    · obtain ⟨hhigh, hlow⟩ := Bool.and_eq_true_iff.mp hpair
      rw [isWellFormed_pair hhigh hlow] at h
      exact ⟨v, vs, rfl, hhigh, hlow, h⟩
    · rw [isWellFormed_unpaired hpair, hu] at h
      simp at h

theorem isWellFormed_units (c : Char) (us : List UInt16) :
    isWellFormed (units c ++ us) = isWellFormed us := by
  have hvalid : c.toNat < 0xD800 ∨ 0xDFFF < c.toNat ∧ c.toNat < 0x110000 := c.valid
  unfold units
  split
  · next hle =>
    have hu : (UInt16.ofNat c.toNat).toNat = c.toNat := toNat_ofNat_of_lt (by omega)
    refine isWellFormed_plain ?_ us
    rw [← Bool.not_eq_true, isSurrogate_iff, hu]
    omega
  · next hle =>
    have hu : (UInt16.ofNat (0xD800 + (c.toNat - 0x10000) / 1024)).toNat =
        0xD800 + (c.toNat - 0x10000) / 1024 := toNat_ofNat_of_lt (by omega)
    have hv : (UInt16.ofNat (0xDC00 + (c.toNat - 0x10000) % 1024)).toNat =
        0xDC00 + (c.toNat - 0x10000) % 1024 := toNat_ofNat_of_lt (by omega)
    exact isWellFormed_pair (isHigh_iff.mpr (by omega)) (isLow_iff.mpr (by omega)) us

theorem isWellFormed_flatMap (cs : List Char) : isWellFormed (cs.flatMap units) = true := by
  induction cs with
  | nil => rfl
  | cons c cs ih => rw [List.flatMap_cons, isWellFormed_units, ih]

theorem toWellFormed_eq {us : List UInt16} (h : isWellFormed us = true) : toWellFormed us = us := by
  induction us using toWellFormed.induct with
  | case1 => rfl
  | case2 u =>
    have hu : isSurrogate u = false := by simpa [isWellFormed] using h
    rw [toWellFormed, plain, if_neg (by simp [hu])]
  | case3 u v us hpair ih =>
    rw [isWellFormed, if_pos hpair] at h
    rw [toWellFormed, if_pos hpair, ih h]
  | case4 u v us hpair ih =>
    rw [isWellFormed_unpaired hpair, Bool.and_eq_true_iff] at h
    have hu : isSurrogate u = false := by simpa using h.1
    rw [toWellFormed, if_neg hpair, ih h.2, plain, if_neg (by simp [hu])]

/-- The units of characters are the ones without an unpaired surrogate. -/
theorem isWellFormed_iff {us : List UInt16} :
    isWellFormed us = true ↔ ∃ cs : List Char, us = cs.flatMap units := by
  constructor
  · intro h
    exact ⟨scalars us, by rw [flatMap_scalars, toWellFormed_eq h]⟩
  · rintro ⟨cs, rfl⟩
    exact isWellFormed_flatMap cs

theorem isWellFormed_append_cons {v : UInt16} (hv : isSurrogate v = false) (us vs : List UInt16) :
    isWellFormed (us ++ v :: vs) = (isWellFormed us && isWellFormed vs) := by
  induction us using isWellFormed.induct with
  | case1 => rw [List.nil_append, isWellFormed_plain hv, isWellFormed, Bool.true_and]
  | case2 u =>
    have hne : ¬ (isHigh u && isLow v) = true := by simp [isLow_of_plain hv]
    rw [List.singleton_append, isWellFormed_unpaired hne, isWellFormed_plain hv, isWellFormed]
  | case3 u u' us hpair ih =>
    obtain ⟨hu, hu'⟩ := Bool.and_eq_true_iff.mp hpair
    rw [List.cons_append, List.cons_append, isWellFormed_pair hu hu', isWellFormed_pair hu hu', ih]
  | case4 u u' us hpair ih =>
    rw [List.cons_append] at ih ⊢
    rw [List.cons_append, isWellFormed_unpaired hpair, isWellFormed_unpaired hpair, ih,
      Bool.and_assoc]

/-- Text splits where no pair is cut. -/
theorem scalars_append {us vs : List UInt16}
    (h : ∀ u ∈ us.getLast?, ∀ v ∈ vs.head?, (isHigh u && isLow v) = false) :
    scalars (us ++ vs) = scalars us ++ scalars vs := by
  induction us using scalars.induct with
  | case1 => rfl
  | case2 u =>
    cases vs with
    | nil => rw [List.append_nil, scalars, List.append_nil]
    | cons v vs =>
      rw [List.singleton_append, scalars_unpaired (h u rfl v rfl)]
      rfl
  | case3 u u' us hpair ih =>
    obtain ⟨hu, hu'⟩ := Bool.and_eq_true_iff.mp hpair
    have hlast : ∀ x ∈ us.getLast?, x ∈ (u :: u' :: us).getLast? := by
      intro x hx
      cases us with
      | nil => cases hx
      | cons y us => rwa [List.getLast?_cons_cons, List.getLast?_cons_cons]
    rw [List.cons_append, List.cons_append, scalars_pair hu hu', scalars_pair hu hu',
      ih fun x hx => h x (hlast x hx)]
    rfl
  | case4 u u' us hpair ih =>
    have hne : (isHigh u && isLow u') = false := Bool.eq_false_iff.mpr hpair
    rw [List.getLast?_cons_cons] at h
    have ih := ih h
    rw [List.cons_append] at ih ⊢
    rw [List.cons_append, scalars_unpaired hne, scalars_unpaired hne, ih]
    rfl

/-- Text splits before a unit that is the second of no pair. -/
theorem scalars_append_cons {v : UInt16} (hv : isLow v = false) (us vs : List UInt16) :
    scalars (us ++ v :: vs) = scalars us ++ scalars (v :: vs) := by
  refine scalars_append fun u _ w hw => ?_
  obtain rfl : v = w := Option.some.inj hw
  rw [hv, Bool.and_false]

end Utf16
