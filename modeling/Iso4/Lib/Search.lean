/-
Loops with an early answer, and the search for a contiguous part of a list.

A loop goes from state to state until a pass answers.  A part stands at a place of a list when
the list goes on with it there.

* `Loop.run_total` — a loop whose passes keep an invariant and lower a measure answers, without a
  fault, as soon as its fuel exceeds the measure;
* `infix_iff_occursFrom` — a contiguous part is one that stands somewhere;
* `occursAt_cons` — its first entry stands there, and the rest after it;
* `occursFrom_skip`, `occursFrom_step` — places at which it does not stand may be passed over.
-/
import Mathlib.Data.List.Infix

namespace Loop

variable {σ ε α : Type}

/-- Passes until one answers; without fuel there is no answer. -/
def run (pass : σ → Except ε (α ⊕ σ)) : Nat → σ → Except ε (Option α)
  | 0, _ => .ok none
  | fuel + 1, s =>
    match pass s with
    | .error e => .error e
    | .ok (.inl a) => .ok (some a)
    | .ok (.inr s') => run pass fuel s'

theorem run_answer {pass : σ → Except ε (α ⊕ σ)} {s : σ} {a : α} (h : pass s = .ok (.inl a))
    (fuel : Nat) : run pass (fuel + 1) s = .ok (some a) := by
  simp only [run, h]

theorem run_next {pass : σ → Except ε (α ⊕ σ)} {s s' : σ} (h : pass s = .ok (.inr s'))
    (fuel : Nat) : run pass (fuel + 1) s = run pass fuel s' := by
  simp only [run, h]

/-- Every pass answers well, or goes on with the invariant kept and the measure lowered. -/
theorem run_total {pass : σ → Except ε (α ⊕ σ)} {I : σ → Prop} {Q : α → Prop}
    (measure : σ → Nat)
    (hpass : ∀ s, I s → (∃ a, pass s = .ok (.inl a) ∧ Q a) ∨
      ∃ s', pass s = .ok (.inr s') ∧ I s' ∧ measure s' < measure s)
    {fuel : Nat} {s : σ} (hI : I s) (hfuel : measure s < fuel) :
    ∃ a, run pass fuel s = .ok (some a) ∧ Q a := by
  induction fuel generalizing s with
  | zero => exact absurd hfuel (Nat.not_lt_zero _)
  | succ fuel ih =>
    obtain ⟨a, hanswer, hQ⟩ | ⟨s', hnext, hI', hless⟩ := hpass s hI
    · exact ⟨a, run_answer hanswer fuel, hQ⟩
    · obtain ⟨a, hrun, hQ⟩ := ih hI' (by omega)
      exact ⟨a, (run_next hnext fuel).trans hrun, hQ⟩

end Loop

namespace Search

variable {α : Type}

/-- The part stands at this place. -/
def OccursAt (part text : List α) (i : Nat) : Prop := part <+: text.drop i

/-- The part stands at this place or at a later one. -/
def OccursFrom (part text : List α) (i : Nat) : Prop := ∃ j, i ≤ j ∧ OccursAt part text j

variable {part text rest : List α} {first : α} {i j : Nat}

/-- A contiguous part is one that stands somewhere. -/
theorem infix_iff_occursFrom : part <:+: text ↔ OccursFrom part text 0 := by
  constructor
  · rintro ⟨before, after, rfl⟩
    refine ⟨before.length, Nat.zero_le _, after, ?_⟩
    rw [List.append_assoc, List.drop_left]
  · rintro ⟨j, -, hj⟩
    exact hj.isInfix.trans (List.drop_suffix j text).isInfix

/-- Standing somewhere is the first entry there, and the rest after it. -/
theorem occursAt_cons :
    OccursAt (first :: rest) text i ↔
      text[i]? = some first ∧ (text.drop (i + 1)).take rest.length = rest := by
  have hhead : text[i]? = (text.drop i).head? := by
    rw [List.head?_drop]
  have htail : text.drop (i + 1) = (text.drop i).tail := by
    rw [List.tail_drop]
  rw [hhead, htail, OccursAt]
  cases text.drop i with
  | nil => simp
  | cons b bs =>
    rw [List.cons_prefix_cons, List.head?_cons, Option.some.injEq, List.tail_cons,
      List.prefix_iff_eq_take, eq_comm (a := first), eq_comm (a := rest)]

/-- What stands somewhere ends inside the list. -/
theorem OccursAt.end_le (h : OccursAt part text i) (hpart : part ≠ []) :
    i + part.length ≤ text.length := by
  have hlength := h.length_le
  have hpos := List.length_pos_of_ne_nil hpart
  rw [List.length_drop] at hlength
  omega

/-- The places before `j` at which it does not stand are passed over. -/
theorem occursFrom_skip (hij : i ≤ j) (h : ∀ k, i ≤ k → k < j → ¬OccursAt part text k) :
    OccursFrom part text i ↔ OccursFrom part text j := by
  constructor
  · rintro ⟨k, hik, hk⟩
    by_cases hkj : k < j
    · exact absurd hk (h k hik hkj)
    · exact ⟨k, by omega, hk⟩
  · rintro ⟨k, hjk, hk⟩
    exact ⟨k, hij.trans hjk, hk⟩

/-- One place at which it does not stand is passed over. -/
theorem occursFrom_step (h : ¬OccursAt part text i) :
    OccursFrom part text i ↔ OccursFrom part text (i + 1) := by
  refine occursFrom_skip (Nat.le_succ i) ?_
  intro k hik hki
  obtain rfl : k = i := by omega
  exact h

/-- No place is left at which the whole part fits. -/
theorem not_occursFrom (hpart : part ≠ []) (h : text.length < i + part.length) :
    ¬OccursFrom part text i := by
  rintro ⟨k, hik, hk⟩
  have hend := hk.end_le hpart
  omega

end Search
