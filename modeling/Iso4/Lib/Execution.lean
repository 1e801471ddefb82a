/-
Runs of a deterministic machine and the invariant rule.

A machine is a step function `step : σ → ι → σ`; everything nondeterministic
(clocks, schedulers, other threads) travels in the inputs.  `exec step s is`
is the state after the inputs `is`, and

* `exec_invariant` — what one step preserves holds after every run;
* `Along.invariant` — the same for runs whose steps all meet a side
  condition `P`, which may look at the state before the step;
* `Along.length_le` — how long such runs get when a measure goes down.

`Along` is the shape of every result of the form "in every run whose steps
all meet the condition".
-/
import Mathlib.Data.List.Basic

namespace Execution

variable {σ ι : Type*} {step : σ → ι → σ}

/-- The state after a list of inputs. -/
def exec (step : σ → ι → σ) (s : σ) (is : List ι) : σ := is.foldl step s

@[simp] theorem exec_nil (s : σ) : exec step s [] = s := rfl

@[simp] theorem exec_cons (s : σ) (i : ι) (is : List ι) :
    exec step s (i :: is) = exec step (step s i) is := rfl

theorem exec_append (s : σ) (is js : List ι) :
    exec step s (is ++ js) = exec step (exec step s is) js := List.foldl_append

/-- Every step of the run from `s` meets `P`. -/
def Along (step : σ → ι → σ) (P : σ → ι → Prop) : σ → List ι → Prop
  | _, [] => True
  | s, i :: is => P s i ∧ Along step P (step s i) is

instance Along.decidable (step : σ → ι → σ) (P : σ → ι → Prop) [∀ s i, Decidable (P s i)] :
    ∀ (s : σ) (is : List ι), Decidable (Along step P s is)
  | _, [] => inferInstanceAs (Decidable True)
  | s, i :: is =>
    haveI := Along.decidable step P (step s i) is
    inferInstanceAs (Decidable (P s i ∧ Along step P (step s i) is))

theorem Along.append {P : σ → ι → Prop} {s : σ} {is js : List ι} :
    Along step P s (is ++ js) ↔ Along step P s is ∧ Along step P (exec step s is) js := by
  induction is generalizing s with
  | nil => simp [Along]
  | cons i is ih => simp [Along, ih, and_assoc]

/-- The invariant rule for runs under a side condition. -/
theorem Along.invariant {P : σ → ι → Prop} {I : σ → Prop}
    (hstep : ∀ s i, I s → P s i → I (step s i)) {s : σ} {is : List ι}
    (h : I s) (hP : Along step P s is) : I (exec step s is) := by
  induction is generalizing s with
  | nil => exact h
  | cons i is ih => exact ih (hstep s i h hP.1) hP.2

/-- Runs under a side condition are no longer than a measure that each step brings down. -/
theorem Along.length_le {P : σ → ι → Prop} {I : σ → Prop} {f : σ → Nat}
    (hstep : ∀ s i, I s → P s i → I (step s i) ∧ f (step s i) < f s) {s : σ} {is : List ι}
    (h : I s) (hP : Along step P s is) : is.length ≤ f s := by
  induction is generalizing s with
  | nil => exact Nat.zero_le (f s)
  | cons i is ih =>
    obtain ⟨hnext, hlt⟩ := hstep s i h hP.1
    have hrest : is.length ≤ f (step s i) := ih hnext hP.2
    simp only [List.length_cons]
    omega

/-- The invariant rule. -/
theorem exec_invariant {I : σ → Prop} (hstep : ∀ s i, I s → I (step s i)) {s : σ}
    (h : I s) (is : List ι) : I (exec step s is) := by
  induction is generalizing s with
  | nil => exact h
  | cons i is ih => exact ih (hstep s i h)

end Execution
