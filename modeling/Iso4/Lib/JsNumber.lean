/-
JavaScript's `Number` of a text.

The conversion trims white space, reads the empty text as zero, takes decimal literals with an
optional sign, fraction and exponent, `Infinity`, and hexadecimal, octal and binary integers
without a sign, and rounds to the nearest double.  Anything else is `NaN`.

* `number` — the conversion;
* `JsNumber.lt`, `JsNumber.eq`, `JsNumber.toInt32` — what comparisons and bit operators read;
* `integer_toDigits` — the digits a number is written with are read as this number;
* `number_repr` — the decimal numerals of bytes are read exactly.
-/
import Mathlib.Data.Nat.Log
import Mathlib.Algebra.Ring.Nat
import Mathlib.Tactic.Common

namespace Js

/-- A double: the finite ones as a sign and a fraction. -/
inductive JsNumber where
  | nan
  | infinite (negative : Bool)
  | finite (negative : Bool) (num den : Nat)
  deriving DecidableEq

/-! ### Rounding -/

/-- The double nearest to `num / den`, ties to even. -/
def roundToDouble (negative : Bool) (num den : Nat) : JsNumber :=
  if num = 0 then .finite negative 0 1
  else
    -- Scale by `up / down`, a power of two, so that the quotient has 53 bits: fewer for
    -- subnormals.
    let numBits := Nat.log2 num + 1074
    let denBits := Nat.log2 den
    let top := if num * 2 ^ (denBits + 1074) < den * 2 ^ numBits then numBits - 1 else numBits
    let shift := top - denBits - 52
    let up := 2 ^ (1074 - shift)
    let down := 2 ^ (shift - 1074)
    let quotient := num * up / (den * down)
    let rest := num * up % (den * down)
    let rounded :=
      if 2 * rest > den * down ∨ (2 * rest = den * down ∧ quotient % 2 = 1) then quotient + 1
      else quotient
    if rounded * down ≥ 2 ^ 1024 * up then .infinite negative
    else .finite negative (rounded * down) up

/-! ### Texts -/

/-- White space and line terminators. -/
def isSpace (c : Char) : Bool :=
  [9, 10, 11, 12, 13, 32, 0xA0, 0x1680, 0x2028, 0x2029, 0x202F, 0x205F, 0x3000, 0xFEFF].contains
    c.toNat || (0x2000 ≤ c.toNat && c.toNat ≤ 0x200A)

def trim (text : List Char) : List Char :=
  ((text.dropWhile isSpace).reverse.dropWhile isSpace).reverse

/-- The value of a digit. -/
def digit (c : Char) : Nat :=
  if c.isDigit then c.toNat - 48
  else if 'a' ≤ c ∧ c ≤ 'z' then c.toNat - 87
  else if 'A' ≤ c ∧ c ≤ 'Z' then c.toNat - 55
  else 36

/-- A nonempty run of digits of a base. -/
def integer (base : Nat) (text : List Char) : Option Nat :=
  if text ≠ [] ∧ text.all fun c => digit c < base then
    some (text.foldl (fun n c => base * n + digit c) 0)
  else none

/-- `+`, `-` or nothing, and the rest. -/
def signed : List Char → Bool × List Char
  | '+' :: rest => (false, rest)
  | '-' :: rest => (true, rest)
  | text => (false, text)

/-- Digits with a fraction: the digits as one number and the length of the fraction. -/
def mantissa (text : List Char) : Option (Nat × Nat) :=
  match text.splitOn '.' with
  | [whole] => (integer 10 whole).map fun n => (n, 0)
  | [whole, fraction] => (integer 10 (whole ++ fraction)).map fun n => (n, fraction.length)
  | _ => none

/-- An unsigned decimal literal. -/
def decimal (negative : Bool) (text : List Char) : JsNumber :=
  if text = "Infinity".toList then .infinite negative
  else
    let digits := text.takeWhile fun c => c ≠ 'e' && c ≠ 'E'
    let exponent := text.dropWhile fun c => c ≠ 'e' && c ≠ 'E'
    match mantissa digits, exponent with
    | some (n, k), [] => roundToDouble negative n (10 ^ k)
    | some (n, k), _ :: power =>
      let (down, power) := signed power
      match integer 10 power with
      | none => .nan
      | some e =>
        if down then roundToDouble negative n (10 ^ (k + e))
        else roundToDouble negative (n * 10 ^ e) (10 ^ k)
    | none, _ => .nan

def based (base : Nat) (text : List Char) : JsNumber :=
  match integer base text with
  | some n => roundToDouble false n 1
  | none => .nan

/-- `Number(text)`. -/
def number (text : List Char) : JsNumber :=
  match trim text with
  | [] => .finite false 0 1
  | '0' :: 'x' :: rest | '0' :: 'X' :: rest => based 16 rest
  | '0' :: 'o' :: rest | '0' :: 'O' :: rest => based 8 rest
  | '0' :: 'b' :: rest | '0' :: 'B' :: rest => based 2 rest
  | text => decimal (signed text).1 (signed text).2

/-! ### What is read of a number -/

def JsNumber.isNaN : JsNumber → Bool
  | .nan => true
  | _ => false

/-- `x < k`. -/
def JsNumber.lt (x : JsNumber) (k : Nat) : Bool :=
  match x with
  | .nan => false
  | .infinite negative => negative
  | .finite true num _ => num ≠ 0 || 0 < k
  | .finite false num den => num < k * den

/-- `x === k`. -/
def JsNumber.eq (x : JsNumber) (k : Nat) : Bool :=
  match x with
  | .nan | .infinite _ => false
  | .finite true num _ => num = 0 && k = 0
  | .finite false num den => num = k * den

/-- `x > k`. -/
def JsNumber.gt (x : JsNumber) (k : Nat) : Bool := !x.isNaN && !x.lt k && !x.eq k

/-- `x >= k`. -/
def JsNumber.ge (x : JsNumber) (k : Nat) : Bool := x.gt k || x.eq k

/-- `x <= k`. -/
def JsNumber.le (x : JsNumber) (k : Nat) : Bool := x.lt k || x.eq k

/-- The 32 bits a bit operator reads. -/
def JsNumber.toInt32 : JsNumber → Nat
  | .nan | .infinite _ => 0
  | .finite false num den => num / den % 2 ^ 32
  | .finite true num den => (2 ^ 32 - num / den % 2 ^ 32) % 2 ^ 32

/-! ### Digits -/

theorem digit_digitChar {n : Nat} (h : n < 16) : digit n.digitChar = n := by
  have hall : ∀ n ∈ List.range 16, digit n.digitChar = n := by decide
  exact hall n (List.mem_range.mpr h)

theorem toDigits_spec {base : Nat} (hlow : 1 < base) (hhigh : base ≤ 16) (n : Nat) :
    (∀ c ∈ Nat.toDigits base n, digit c < base) ∧
      (Nat.toDigits base n).foldl (fun n c => base * n + digit c) 0 = n := by
  induction n using Nat.base_induction base hlow with
  | single m hm =>
    rw [Nat.toDigits_of_lt_base hm]
    have hdigit : digit m.digitChar = m := digit_digitChar (by omega)
    simp [hdigit, hm]
  | digit m k hk hm ih =>
    obtain ⟨hdigits, hvalue⟩ := ih
    have hdigit : digit k.digitChar = k := digit_digitChar (by omega)
    rw [← Nat.toDigits_append_toDigits hlow hm hk, Nat.toDigits_of_lt_base hk]
    refine ⟨fun c hc => ?_, ?_⟩
    · rcases List.mem_append.mp hc with hc | hc
      · exact hdigits c hc
      · rw [List.mem_singleton.mp hc, hdigit]
        exact hk
    · rw [List.foldl_append, hvalue, List.foldl_cons, hdigit, List.foldl_nil]

/-- The digits a number is written with are read as this number. -/
theorem integer_toDigits {base : Nat} (hlow : 1 < base) (hhigh : base ≤ 16) (n : Nat) :
    integer base (Nat.toDigits base n) = some n := by
  obtain ⟨hdigits, hvalue⟩ := toDigits_spec hlow hhigh n
  unfold integer
  rw [if_pos ⟨Nat.toDigits_ne_nil, by simpa using hdigits⟩, hvalue]
/-! ### Bytes -/

/-- The number is `n`. -/
def JsNumber.Is (x : JsNumber) (n : Nat) : Prop := ∃ den, 0 < den ∧ x = .finite false (n * den) den

theorem JsNumber.Is.lt {x : JsNumber} {n : Nat} (h : x.Is n) (k : Nat) : x.lt k = decide (n < k) := by
  obtain ⟨den, hden, rfl⟩ := h
  exact decide_eq_decide.mpr (Nat.mul_lt_mul_right hden)

theorem JsNumber.Is.eq {x : JsNumber} {n : Nat} (h : x.Is n) (k : Nat) : x.eq k = decide (n = k) := by
  obtain ⟨den, hden, rfl⟩ := h
  exact decide_eq_decide.mpr (Nat.mul_left_inj (Nat.ne_of_gt hden))

theorem JsNumber.Is.isNaN {x : JsNumber} {n : Nat} (h : x.Is n) : x.isNaN = false := by
  obtain ⟨den, -, rfl⟩ := h
  rfl

theorem JsNumber.Is.gt {x : JsNumber} {n : Nat} (h : x.Is n) (k : Nat) : x.gt k = decide (k < n) := by
  unfold JsNumber.gt
  rw [h.isNaN, h.lt, h.eq, Bool.eq_iff_iff]
  simp
  omega

theorem JsNumber.Is.ge {x : JsNumber} {n : Nat} (h : x.Is n) (k : Nat) : x.ge k = decide (k ≤ n) := by
  unfold JsNumber.ge
  rw [h.gt, h.eq, Bool.eq_iff_iff]
  simp
  omega

theorem JsNumber.Is.le {x : JsNumber} {n : Nat} (h : x.Is n) (k : Nat) : x.le k = decide (n ≤ k) := by
  unfold JsNumber.le
  rw [h.lt, h.eq, Bool.eq_iff_iff]
  simp
  omega

theorem JsNumber.Is.toInt32 {x : JsNumber} {n : Nat} (h : x.Is n) (hn : n < 2 ^ 32) :
    x.toInt32 = n := by
  obtain ⟨den, hden, rfl⟩ := h
  show n * den / den % 2 ^ 32 = n
  rw [Nat.mul_div_cancel n hden, Nat.mod_eq_of_lt hn]

def JsNumber.isNat (x : JsNumber) (n : Nat) : Bool :=
  match x with
  | .finite false num den => num = n * den && 0 < den
  | _ => false

theorem JsNumber.is_of_isNat {x : JsNumber} {n : Nat} (h : x.isNat n = true) : x.Is n := by
  unfold JsNumber.isNat at h
  split at h
  · next num den =>
    simp only [Bool.and_eq_true, decide_eq_true_eq] at h
    exact ⟨den, h.2, by rw [h.1]⟩
  · cases h

/-- Every byte, spelled in decimal, is read as itself. -/
theorem number_repr {n : Nat} (h : n < 256) : (number (Nat.repr n).toList).Is n := by
  have hall : (List.range 256).all (fun n => (number (Nat.repr n).toList).isNat n) = true := by
    decide +kernel
  exact JsNumber.is_of_isNat (List.all_eq_true.mp hall n (List.mem_range.mpr h))

end Js
