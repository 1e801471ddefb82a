/-
Searches of a finite graph with a set of the nodes that were seen and a list of those that wait.

* `Frontier` — everything seen or waiting is reachable, and what was seen leads nowhere else;
* `Frontier.init`, `Frontier.skip`, `Frontier.visit` — the ways a search goes on;
* `Frontier.done` — when nothing waits, what was seen is what is reachable;
* `unseen_lt` — a node seen for the first time, for the termination of a search;
* `sum_le_of_injective` — places that are told apart below a bound are no more than the bound.
-/
import Mathlib.Algebra.Order.BigOperators.Group.Finset
import Mathlib.Data.Finset.Sigma
import Mathlib.Data.Fintype.Card
import Mathlib.Logic.Relation

namespace Worklist

open Relation

variable {α : Type*}

/-! ### The frontier -/

structure Frontier (edge : α → α → Prop) (root : α) (seen : Finset α) (waiting : List α) : Prop where
  reached : ∀ a, a ∈ seen ∨ a ∈ waiting → ReflTransGen edge root a
  covered : root ∈ seen ∨ root ∈ waiting
  closed : ∀ a ∈ seen, ∀ b, edge a b → b ∈ seen ∨ b ∈ waiting

section Frontier

variable {edge : α → α → Prop} {root a : α} {seen : Finset α} {waiting waiting' : List α}

theorem Frontier.init : Frontier edge root ∅ [root] where
  reached b hb := by
    obtain rfl : b = root := by simpa using hb
    exact .refl
  covered := .inr List.mem_cons_self
  closed b hb := absurd hb (Finset.notMem_empty b)

/-- A node that was seen before is passed over. -/
theorem Frontier.skip (h : Frontier edge root seen (a :: waiting)) (ha : a ∈ seen) :
    Frontier edge root seen waiting := by
  have hstill : ∀ b, b ∈ seen ∨ b ∈ a :: waiting → b ∈ seen ∨ b ∈ waiting := by
    rintro b (hb | hb)
    · exact .inl hb
    · obtain rfl | hb := List.mem_cons.mp hb
      · exact .inl ha
      · exact .inr hb
  refine ⟨fun b hb => ?_, hstill root h.covered, fun b hb c hc => hstill c (h.closed b hb c hc)⟩
  exact h.reached b (hb.imp_right (List.mem_cons_of_mem a))

/-- A node seen for the first time leaves the nodes it leads to. -/
theorem Frontier.visit [DecidableEq α] (h : Frontier edge root seen (a :: waiting))
    (hnext : ∀ b, b ∈ waiting' ↔ edge a b ∨ b ∈ waiting) :
    Frontier edge root (insert a seen) waiting' := by
  have hstill : ∀ b, b ∈ seen ∨ b ∈ a :: waiting → b ∈ insert a seen ∨ b ∈ waiting' := by
    rintro b (hb | hb)
    · exact .inl (Finset.mem_insert_of_mem hb)
    · obtain rfl | hb := List.mem_cons.mp hb
      · exact .inl (Finset.mem_insert_self b seen)
      · exact .inr ((hnext b).mpr (.inr hb))
  have ha := h.reached a (.inr List.mem_cons_self)
  refine ⟨?_, hstill root h.covered, ?_⟩
  · rintro b (hb | hb)
    · obtain rfl | hb := Finset.mem_insert.mp hb
      · exact ha
      · exact h.reached b (.inl hb)
    · obtain hedge | hb := (hnext b).mp hb
      · exact ha.tail hedge
      · exact h.reached b (.inr (List.mem_cons_of_mem a hb))
  · intro b hb c hc
    obtain rfl | hb := Finset.mem_insert.mp hb
    · exact .inr ((hnext c).mpr (.inl hc))
    · exact hstill c (h.closed b hb c hc)

/-- When nothing waits, what was seen is what is reachable. -/
theorem Frontier.done (h : Frontier edge root seen []) : a ∈ seen ↔ ReflTransGen edge root a := by
  constructor
  · intro ha
    exact h.reached a (.inl ha)
  · intro ha
    induction ha with
    | refl => simpa using h.covered
    | tail _ hedge ih => simpa using h.closed _ ih _ hedge

end Frontier

/-! ### Counts -/

theorem unseen_lt [Fintype α] [DecidableEq α] {seen : Finset α} {a : α} (ha : a ∉ seen) :
    ((insert a seen)ᶜ).card < (seenᶜ).card :=
  Finset.card_lt_card (Finset.compl_ssubset_compl.mpr (Finset.ssubset_insert ha))

/-- Places that are told apart by numbers below a bound are no more than the bound. -/
theorem sum_le_of_injective {s : Finset α} {size : α → Nat} {bound : Nat} (place : α → Nat → Nat)
    (hlt : ∀ a ∈ s, ∀ i < size a, place a i < bound)
    (hinj : ∀ a ∈ s, ∀ i < size a, ∀ b ∈ s, ∀ j < size b, place a i = place b j → a = b ∧ i = j) :
    ∑ a ∈ s, size a ≤ bound := by
  have hcard : (s.sigma fun a => Finset.range (size a)).card = ∑ a ∈ s, size a := by
    rw [Finset.card_sigma]
    exact Finset.sum_congr rfl fun a _ => Finset.card_range (size a)
  rw [← hcard, ← Finset.card_range bound]
  refine Finset.card_le_card_of_injOn (fun x => place x.1 x.2) ?_ ?_
  · rintro ⟨a, i⟩ hx
    obtain ⟨ha, hi⟩ := Finset.mem_sigma.mp hx
    exact Finset.mem_coe.mpr (Finset.mem_range.mpr (hlt a ha i (Finset.mem_range.mp hi)))
  · rintro ⟨a, i⟩ hx ⟨b, j⟩ hy heq
    obtain ⟨ha, hi⟩ := Finset.mem_sigma.mp hx
    obtain ⟨hb, hj⟩ := Finset.mem_sigma.mp hy
    obtain ⟨rfl, rfl⟩ :=
      hinj a ha i (Finset.mem_range.mp hi) b hb j (Finset.mem_range.mp hj) heq
    rfl

end Worklist
