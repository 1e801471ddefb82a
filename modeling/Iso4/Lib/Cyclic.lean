/-
A counter that wraps and skips.

`firstAfter m skips fuel n` counts on from `n` modulo `m` until it meets a number
that is not skipped.

* `firstAfter_spec` — what it returns is not skipped;
* `firstAfter_total` — `m` rounds find a number when there is one;
* `exists_unused` — there is one when fewer than `m - 1` are in use.
-/
import Mathlib.Data.Finset.Card
import Mathlib.Data.Finset.Range

namespace Cyclic

variable {m : Nat} {skips : Nat → Bool}

/-- The first number after `n`, modulo `m`, that is not skipped, in `fuel` rounds. -/
def firstAfter (m : Nat) (skips : Nat → Bool) : Nat → Nat → Option Nat
  | 0, _ => none
  | fuel + 1, n =>
    if skips ((n + 1) % m) then firstAfter m skips fuel ((n + 1) % m) else some ((n + 1) % m)

theorem firstAfter_spec (hm : 0 < m) {fuel n k : Nat} (h : firstAfter m skips fuel n = some k) :
    k < m ∧ skips k = false := by
  induction fuel generalizing n with
  | zero => cases h
  | succ fuel ih =>
    unfold firstAfter at h
    by_cases hskip : skips ((n + 1) % m) = true
    · rw [if_pos hskip] at h
      exact ih h
    · rw [if_neg hskip] at h
      cases h
      exact ⟨Nat.mod_lt _ hm, Bool.eq_false_iff.mpr hskip⟩

/-- The number that is not skipped is at most `d` rounds ahead. -/
theorem firstAfter_of_ahead {fuel n d : Nat} (hd : d < fuel) (hfree : skips ((n + 1 + d) % m) = false) :
    ∃ k, firstAfter m skips fuel n = some k := by
  induction fuel generalizing n d with
  | zero => exact absurd hd (Nat.not_lt_zero d)
  | succ fuel ih =>
    unfold firstAfter
    by_cases hskip : skips ((n + 1) % m) = true
    · rw [if_pos hskip]
      cases d with
      | zero =>
        rw [Nat.add_zero, hskip] at hfree
        cases hfree
      | succ d =>
        refine ih (Nat.lt_of_succ_lt_succ hd) ?_
        rw [← hfree, Nat.add_assoc, Nat.mod_add_mod]
        congr 2
        omega
    · rw [if_neg hskip]
      exact ⟨_, rfl⟩

/-- In `m` rounds every number comes up. -/
theorem firstAfter_total {fuel n k : Nat} (hfuel : m ≤ fuel) (hk : k < m) (hfree : skips k = false) :
    ∃ k', firstAfter m skips fuel n = some k' := by
  have hmod : n % m < m := Nat.mod_lt n (Nat.zero_lt_of_lt hk)
  have hreach : ∃ d, d < m ∧ (n + 1 + d) % m = k := by
    refine ⟨(k + m - (n + 1) % m) % m, Nat.mod_lt _ (Nat.zero_lt_of_lt hk), ?_⟩
    have hlt : (n + 1) % m < m := Nat.mod_lt _ (Nat.zero_lt_of_lt hk)
    rw [Nat.add_mod_mod, ← Nat.mod_add_mod]
    have hsum : (n + 1) % m + (k + m - (n + 1) % m) = k + m := by omega
    rw [hsum, Nat.add_mod_right, Nat.mod_eq_of_lt hk]
  obtain ⟨d, hd, heq⟩ := hreach
  exact firstAfter_of_ahead (Nat.lt_of_lt_of_le hd hfuel) (heq ▸ hfree)

/-- More rounds find the same number. -/
theorem firstAfter_mono {fuel fuel' n k : Nat} (hle : fuel ≤ fuel') (h : firstAfter m skips fuel n = some k) :
    firstAfter m skips fuel' n = some k := by
  induction fuel generalizing fuel' n with
  | zero => cases h
  | succ fuel ih =>
    obtain ⟨fuel', rfl⟩ : ∃ f, fuel' = f + 1 := ⟨fuel' - 1, by omega⟩
    unfold firstAfter at h ⊢
    by_cases hskip : skips ((n + 1) % m) = true
    · rw [if_pos hskip] at h ⊢
      exact ih (Nat.le_of_succ_le_succ hle) h
    · rw [if_neg hskip] at h ⊢
      exact h

/-- The successor, when it is not skipped. -/
theorem firstAfter_succ {fuel n : Nat} (hfuel : 0 < fuel) (hlt : n + 1 < m) (hfree : skips (n + 1) = false) :
    firstAfter m skips fuel n = some (n + 1) := by
  cases fuel with
  | zero => exact absurd hfuel (Nat.lt_irrefl 0)
  | succ fuel =>
    unfold firstAfter
    rw [Nat.mod_eq_of_lt hlt, if_neg (by rw [hfree]; exact Bool.false_ne_true)]

/-- A skipped successor costs a round. -/
theorem firstAfter_skip {fuel n : Nat} (hfuel : 0 < fuel) (hskip : skips ((n + 1) % m) = true) :
    firstAfter m skips fuel n = firstAfter m skips (fuel - 1) ((n + 1) % m) := by
  cases fuel with
  | zero => exact absurd hfuel (Nat.lt_irrefl 0)
  | succ fuel => exact if_pos hskip

/-- With fewer than `m - 1` numbers in use, one other than 0 is not. -/
theorem exists_unused {used : List Nat} (h : used.length < m - 1) : ∃ k < m, k ≠ 0 ∧ k ∉ used := by
  have hcard : (insert 0 used.toFinset).card < (Finset.range m).card := by
    have hinsert := Finset.card_insert_le 0 used.toFinset
    have hlength := List.toFinset_card_le used
    rw [Finset.card_range]
    omega
  obtain ⟨k, hk, hnot⟩ := Finset.exists_mem_notMem_of_card_lt_card hcard
  refine ⟨k, Finset.mem_range.mp hk, fun hzero => hnot ?_, fun hused => hnot ?_⟩
  · exact Finset.mem_insert.mpr (Or.inl hzero)
  · exact Finset.mem_insert.mpr (Or.inr (List.mem_toFinset.mpr hused))

end Cyclic
