/-
Programs over a signature of operations, and rules about them.

`Prog Op α` is a program that performs operations `o : Op β`, each answered by
a `β`, and returns an `α`.  A handler gives the operations their meaning on a
state, and `run` is the program's meaning under it.

* `run_rel` — a reflexive and transitive relation that every single operation
  respects holds between the states before and after any program;
* `Uses.run_rel` — the same for programs confined to some of the operations;
* `Ensures` — pre- and postconditions, with one rule per program former.

The first rule is what makes facts of the form "nothing a program of this
signature does can …" cost one check per operation and none per program.
-/
import Mathlib.Init

namespace Program

/-- A program of operations `Op` returning an `α`. -/
inductive Prog (Op : Type → Type) (α : Type) : Type 1 where
  | ret (a : α)
  | op {β : Type} (o : Op β) (k : β → Prog Op α)

/-- What each operation answers and does to the state. -/
abbrev Handler (Op : Type → Type) (σ : Type) := ∀ β : Type, Op β → σ → β × σ

namespace Prog

variable {Op : Type → Type} {σ α β : Type}

/-- Sequential composition. -/
protected def bind : Prog Op α → (α → Prog Op β) → Prog Op β
  | ret a, f => f a
  | op o k, f => op o fun b => (k b).bind f

instance : Monad (Prog Op) where
  pure := ret
  bind := Prog.bind

/-- One operation as a program. -/
def perform (o : Op α) : Prog Op α := op o ret

/-- The meaning of a program under a handler. -/
def run (h : Handler Op σ) : Prog Op α → σ → α × σ
  | ret a, s => (a, s)
  | op (β := γ) o k, s => (k (h γ o s).1).run h (h γ o s).2

variable {h : Handler Op σ}

@[simp] theorem run_pure (a : α) (s : σ) : (pure a : Prog Op α).run h s = (a, s) := rfl

@[simp] theorem run_perform (o : Op α) (s : σ) : (perform o).run h s = h α o s := rfl

@[simp] theorem run_bind (p : Prog Op α) (f : α → Prog Op β) (s : σ) :
    (p >>= f).run h s = (f (p.run h s).1).run h (p.run h s).2 := by
  change (p.bind f).run h s = _
  induction p generalizing s with
  | ret a => rfl
  | op o k ih => exact ih _ _

/-- What every operation respects, every program respects. -/
theorem run_rel {R : σ → σ → Prop} (hrefl : ∀ s, R s s)
    (htrans : ∀ {s t u}, R s t → R t u → R s u)
    (hop : ∀ (γ : Type) (o : Op γ) (s : σ), R s (h γ o s).2) (p : Prog Op α) (s : σ) :
    R s (p.run h s).2 := by
  induction p generalizing s with
  | ret a => exact hrefl s
  | op o k ih => exact htrans (hop _ o s) (ih _ _)

/-- Every operation the program can perform is `ok`. -/
def Uses (ok : ∀ γ : Type, Op γ → Prop) : Prog Op α → Prop
  | ret _ => True
  | op (β := γ) o k => ok γ o ∧ ∀ b, (k b).Uses ok

namespace Uses

variable {ok : ∀ γ : Type, Op γ → Prop}

protected theorem pure (a : α) : Uses ok (pure a : Prog Op α) := trivial

protected theorem perform {o : Op α} (ho : ok α o) : Uses ok (perform o) :=
  ⟨ho, fun _ => trivial⟩

protected theorem bind {p : Prog Op α} {f : α → Prog Op β} (hp : Uses ok p)
    (hf : ∀ a, Uses ok (f a)) : Uses ok (p >>= f) := by
  change Uses ok (p.bind f)
  induction p with
  | ret a => exact hf a
  | op o k ih => exact ⟨hp.1, fun b => ih b (hp.2 b)⟩

protected theorem ite {c : Prop} [Decidable c] {p q : Prog Op α} (hp : c → Uses ok p)
    (hq : ¬c → Uses ok q) : Uses ok (if c then p else q) := by
  by_cases hc : c
  · rw [if_pos hc]
    exact hp hc
  · rw [if_neg hc]
    exact hq hc

theorem mono {ok' : ∀ γ : Type, Op γ → Prop} {p : Prog Op α} (hp : Uses ok p)
    (hok : ∀ (γ : Type) (o : Op γ), ok γ o → ok' γ o) : Uses ok' p := by
  induction p with
  | ret a => trivial
  | op o k ih => exact ⟨hok _ o hp.1, fun b => ih b (hp.2 b)⟩

theorem run_rel {R : σ → σ → Prop} (hrefl : ∀ s, R s s)
    (htrans : ∀ {s t u}, R s t → R t u → R s u)
    (hop : ∀ (γ : Type) (o : Op γ) (s : σ), ok γ o → R s (h γ o s).2) {p : Prog Op α}
    (hp : Uses ok p) (s : σ) : R s (p.run h s).2 := by
  induction p generalizing s with
  | ret a => exact hrefl s
  | op o k ih => exact htrans (hop _ o s hp.1) (ih _ (hp.2 _) _)

end Uses

/-- From a state in `P` the program ends in `Q`. -/
def Ensures (h : Handler Op σ) (P : σ → Prop) (p : Prog Op α) (Q : α → σ → Prop) : Prop :=
  ∀ s, P s → Q (p.run h s).1 (p.run h s).2

namespace Ensures

variable {P P' : σ → Prop} {Q Q' : α → σ → Prop}

protected theorem pure {a : α} (hPQ : ∀ s, P s → Q a s) : Ensures h P (pure a) Q := hPQ

protected theorem perform {o : Op α} (hPQ : ∀ s, P s → Q (h α o s).1 (h α o s).2) :
    Ensures h P (perform o) Q := hPQ

protected theorem bind {p : Prog Op β} {f : β → Prog Op α} {M : β → σ → Prop}
    (hp : Ensures h P p M) (hf : ∀ b, Ensures h (M b) (f b) Q) : Ensures h P (p >>= f) Q := by
  intro s hs
  rw [run_bind]
  exact hf _ _ (hp s hs)

protected theorem ite {c : Prop} [Decidable c] {p q : Prog Op α}
    (hp : c → Ensures h P p Q) (hq : ¬c → Ensures h P q Q) :
    Ensures h P (if c then p else q) Q := by
  by_cases hc : c
  · rw [if_pos hc]
    exact hp hc
  · rw [if_neg hc]
    exact hq hc

theorem weaken {p : Prog Op α} (hp : Ensures h P p Q) (hQ : ∀ a s, Q a s → Q' a s) :
    Ensures h P p Q' := fun s hs => hQ _ _ (hp s hs)

theorem strengthen {p : Prog Op α} (hp : Ensures h P p Q) (hP : ∀ s, P' s → P s) :
    Ensures h P' p Q := fun s hs => hp s (hP s hs)

/-- What every operation keeps holds at the end. -/
theorem invariant {I : σ → Prop} (hI : ∀ (γ : Type) (o : Op γ) (s : σ), I s → I (h γ o s).2)
    (p : Prog Op α) : Ensures h I p fun _ => I :=
  p.run_rel (R := fun s t => I s → I t) (fun _ => id) (fun hs ht => ht ∘ hs) hI

/-- Whatever comes first keeps the invariant; the rest decides. -/
theorem tail {I : σ → Prop} (hI : ∀ (γ : Type) (o : Op γ) (s : σ), I s → I (h γ o s).2)
    {p : Prog Op β} {f : β → Prog Op α} (hf : ∀ b, Ensures h I (f b) Q) :
    Ensures h I (p >>= f) Q :=
  Ensures.bind (invariant hI p) hf

theorem and {p : Prog Op α} (hp : Ensures h P p Q) (hp' : Ensures h P p Q') :
    Ensures h P p fun a s => Q a s ∧ Q' a s := fun s hs => ⟨hp s hs, hp' s hs⟩

end Ensures

end Prog

end Program
