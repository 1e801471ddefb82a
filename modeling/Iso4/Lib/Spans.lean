/-
Spans of time, one after the other.

A span is a pair of instants and counts the moments from the first up to the second.
`Spans lo hi l` says that the spans of `l` follow each other between `lo` and `hi`.

* `Spans.append`, `Spans.snoc` — lists of spans put together;
* `Spans.disjoint` — no moment is in two of them;
* `Spans.within` — each lies between the ends.
-/
import Mathlib.Data.List.Basic

namespace Timeline

/-- The spans follow each other between the two instants. -/
def Spans : Nat → Nat → List (Nat × Nat) → Prop
  | lo, hi, [] => lo ≤ hi
  | lo, hi, (a, b) :: l => lo ≤ a ∧ a ≤ b ∧ Spans b hi l

/-- The moments that spans count. -/
def totalTime : List (Nat × Nat) → Nat
  | [] => 0
  | (a, b) :: l => (b - a) + totalTime l

@[simp] theorem totalTime_nil : totalTime [] = 0 := rfl

theorem totalTime_snoc (l : List (Nat × Nat)) (a b : Nat) :
    totalTime (l ++ [(a, b)]) = totalTime l + (b - a) := by
  induction l with
  | nil => simp [totalTime]
  | cons x l ih =>
    simp only [List.cons_append, totalTime, ih]
    omega

variable {lo mid hi : Nat} {l m : List (Nat × Nat)}

theorem Spans.le (h : Spans lo hi l) : lo ≤ hi := by
  induction l generalizing lo with
  | nil => exact h
  | cons x l ih =>
    obtain ⟨ha, hb, hl⟩ := h
    have := ih hl
    omega

theorem Spans.append (hl : Spans lo mid l) (hm : Spans mid hi m) : Spans lo hi (l ++ m) := by
  induction l generalizing lo with
  | nil =>
    cases m with
    | nil => exact Nat.le_trans hl hm
    | cons x m =>
      obtain ⟨ha, hb, hm⟩ := hm
      exact ⟨Nat.le_trans hl ha, hb, hm⟩
  | cons x l ih =>
    obtain ⟨ha, hb, hl⟩ := hl
    exact ⟨ha, hb, ih hl⟩

/-- One more span at the end. -/
theorem Spans.snoc (h : Spans lo mid l) {a b : Nat} (ha : mid ≤ a) (hab : a ≤ b) (hb : b ≤ hi) :
    Spans lo hi (l ++ [(a, b)]) :=
  h.append ⟨ha, hab, hb⟩

theorem Spans.mono (h : Spans lo mid l) (hmid : mid ≤ hi) : Spans lo hi l := by
  have happend := h.append (m := []) hmid
  rwa [List.append_nil] at happend

/-- The first of two lists of spans. -/
theorem Spans.left (h : Spans lo hi (l ++ m)) : Spans lo hi l := by
  induction l generalizing lo with
  | nil => exact h.le
  | cons x l ih =>
    obtain ⟨ha, hb, hl⟩ := h
    exact ⟨ha, hb, ih hl⟩

/-- Each span lies between the ends. -/
theorem Spans.within (h : Spans lo hi l) : ∀ x ∈ l, lo ≤ x.1 ∧ x.1 ≤ x.2 ∧ x.2 ≤ hi := by
  induction l generalizing lo with
  | nil => simp
  | cons y l ih =>
    obtain ⟨ha, hb, hl⟩ := h
    intro x hx
    obtain rfl | hx := List.mem_cons.mp hx
    · exact ⟨ha, hb, hl.le⟩
    · obtain ⟨hlo, hx⟩ := ih hl x hx
      exact ⟨by omega, hx⟩

/-- A span ends before the next begins, so no moment is counted twice. -/
theorem Spans.disjoint (h : Spans lo hi l) : l.Pairwise fun x y => x.2 ≤ y.1 := by
  induction l generalizing lo with
  | nil => exact List.Pairwise.nil
  | cons y l ih =>
    obtain ⟨ha, hb, hl⟩ := h
    exact List.pairwise_cons.mpr ⟨fun x hx => (hl.within x hx).1, ih hl⟩

end Timeline
