/-
What is held of a list of keys, one entry for each hold.

* `sum_count` — the holds of the keys add up to all holds;
* `countP_held` — the keys that are held are the distinct ones of the holds.
-/
import Mathlib

namespace Holdings

variable {α : Type*} [DecidableEq α] [instBEq : BEq α] [LawfulBEq α] {keys held : List α}

theorem sum_count (hkeys : keys.Nodup) (hheld : ∀ a ∈ held, a ∈ keys) :
    (keys.map fun k => held.count k).sum = held.length := by
  obtain rfl : instBEq = instBEqOfDecidableEq := lawful_beq_subsingleton _ _
  have hcard : ∑ k ∈ keys.toFinset, Multiset.count k (held : Multiset α) = Multiset.card (held : Multiset α) :=
    Multiset.sum_count_eq_card fun a ha => List.mem_toFinset.mpr (hheld a ha)
  rw [List.sum_toFinset _ hkeys] at hcard
  simpa using hcard

theorem countP_held (hkeys : keys.Nodup) (hheld : ∀ a ∈ held, a ∈ keys) :
    (keys.countP fun k => decide (0 < held.count k)) = held.dedup.length := by
  rw [List.countP_eq_length_filter]
  refine List.Perm.length_eq ((List.perm_ext_iff_of_nodup (hkeys.filter _) held.nodup_dedup).mpr fun a => ?_)
  rw [List.mem_filter, List.mem_dedup, decide_eq_true_eq, List.count_pos_iff]
  exact ⟨fun h => h.2, fun h => ⟨hheld a h, h⟩⟩

end Holdings
