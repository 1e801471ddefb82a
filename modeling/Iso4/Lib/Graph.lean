/-
Object graphs: heaps whose nodes hold primitive values and references.

A node is a shape with values in it, and a rooted graph is what is reached from a value.  Two
rooted graphs are the same when a renaming of addresses carries one onto the other.

* `Reach` — the addresses reached from a value along given edges;
* `Embeds` — a renaming carries a rooted graph onto another;
* `Embeds.trans`, `Embeds.symm` — such renamings compose and turn round.
-/
import Mathlib.Data.Finset.Card
import Mathlib.Order.Interval.Finset.Nat

namespace Graph

/-! ### Values and nodes -/

/-- A primitive value, or a reference. -/
inductive Value (P : Type) where
  | prim (p : P)
  | ref (a : Nat)
  deriving DecidableEq

def Value.map {P : Type} (f : Nat → Nat) : Value P → Value P
  | .prim p => .prim p
  | .ref a => .ref (f a)

@[simp] theorem Value.map_prim {P : Type} (f : Nat → Nat) (p : P) :
    (Value.prim p).map f = .prim p := rfl

@[simp] theorem Value.map_ref {P : Type} (f : Nat → Nat) (a : Nat) :
    (Value.ref a : Value P).map f = .ref (f a) := rfl

theorem Value.map_map {P : Type} (f g : Nat → Nat) (v : Value P) :
    (v.map f).map g = v.map (g ∘ f) := by
  cases v <;> rfl

theorem Value.map_congr {P : Type} {f g : Nat → Nat} {v : Value P}
    (h : ∀ a, v = .ref a → f a = g a) : v.map f = v.map g := by
  cases v with
  | prim p => rfl
  | ref a => exact congrArg Value.ref (h a rfl)

theorem Value.map_eq_self {P : Type} {f : Nat → Nat} {v : Value P}
    (h : ∀ a, v = .ref a → f a = a) : v.map f = v := by
  cases v with
  | prim p => rfl
  | ref a => exact congrArg Value.ref (h a rfl)

/-- Nodes with values in them, in order. -/
class Shape (F : Type → Type) where
  map : {α β : Type} → (α → β) → F α → F β
  children : {α : Type} → F α → List α
  children_map : ∀ {α β : Type} (f : α → β) (o : F α), children (map f o) = (children o).map f
  map_congr : ∀ {α β : Type} {f g : α → β} {o : F α},
    (∀ x ∈ children o, f x = g x) → map f o = map g o
  map_map : ∀ {α β γ : Type} (f : α → β) (g : β → γ) (o : F α), map g (map f o) = map (g ∘ f) o
  map_id : ∀ {α : Type} (o : F α), map id o = o

/-! ### Reachable addresses -/

/-- The addresses reached from a value, where `edges` are the values an address holds. -/
inductive Reach {P : Type} (edges : Nat → List (Value P)) (root : Value P) : Nat → Prop where
  | root {a : Nat} : root = .ref a → Reach edges root a
  | step {a b : Nat} : Reach edges root a → .ref b ∈ edges a → Reach edges root b

section Reaching

variable {P : Type} {edges edges' : Nat → List (Value P)} {root : Value P}

theorem not_reach_prim {p : P} {a : Nat} : ¬Reach edges (.prim p) a := by
  intro h
  induction h with
  | root heq => cases heq
  | step _ _ ih => exact ih

theorem Reach.trans {a b : Nat} (h : Reach edges root a) (hb : Reach edges (.ref a) b) :
    Reach edges root b := by
  induction hb with
  | root heq => cases heq; exact h
  | step _ hmem ih => exact ih.step hmem

theorem Reach.child {a b : Nat} {v : Value P} (h : Reach edges root a) (hv : v ∈ edges a)
    (hb : Reach edges v b) : Reach edges root b := by
  induction hb with
  | root heq => exact h.step (heq ▸ hv)
  | step _ hmem ih => exact ih.step hmem

/-- Along more edges more is reached. -/
theorem Reach.mono {a : Nat} (h : Reach edges root a)
    (hsub : ∀ b, Reach edges root b → ∀ c, .ref c ∈ edges b → .ref c ∈ edges' b) :
    Reach edges' root a := by
  induction h with
  | root heq => exact .root heq
  | step hreach hmem ih => exact ih.step (hsub _ hreach _ hmem)

end Reaching

/-! ### Searches -/

/-- The addresses below `n` that a search has not met. -/
def unmet (n : Nat) (met : Nat → Bool) : Nat :=
  ((Finset.range n).filter fun a => met a = false).card

section Searching

variable {n : Nat} {met met' : Nat → Bool}

theorem unmet_le_self : unmet n met ≤ n :=
  (Finset.card_filter_le _ _).trans (Finset.card_range n).le

theorem unmet_mono (h : ∀ a, met a = true → met' a = true) : unmet n met' ≤ unmet n met := by
  refine Finset.card_le_card fun a ha => ?_
  rw [Finset.mem_filter] at ha ⊢
  refine ⟨ha.1, ?_⟩
  by_contra hmet
  rw [h a (by simpa using hmet)] at ha
  cases ha.2

/-- A search that meets one more has fewer to meet. -/
theorem unmet_lt (h : ∀ a, met a = true → met' a = true) {a : Nat} (ha : a < n)
    (hold : met a = false) (hnew : met' a = true) : unmet n met' < unmet n met := by
  refine Finset.card_lt_card (Finset.ssubset_iff_of_subset ?_ |>.mpr ⟨a, ?_, ?_⟩)
  · intro b hb
    rw [Finset.mem_filter] at hb ⊢
    refine ⟨hb.1, ?_⟩
    by_contra hmet
    rw [h b (by simpa using hmet)] at hb
    cases hb.2
  · rw [Finset.mem_filter, Finset.mem_range]
    exact ⟨ha, hold⟩
  · rw [Finset.mem_filter, hnew]
    simp

/-- Taking a stand-in for an address meets it. -/
theorem unmet_mark {seen : Nat → Option Nat} {a b : Nat} (ha : a < n) (h : seen a = none) :
    unmet n (fun x => (if x = a then some b else seen x).isSome) <
      unmet n fun x => (seen x).isSome := by
  refine unmet_lt (fun x hx => ?_) ha (by rw [h]; rfl) (by simp)
  split
  · rfl
  · exact hx

end Searching

/-! ### Renamings -/

section Renaming

variable {F : Type → Type} [Shape F] {P : Type}

/-- What the addresses hold. -/
abbrev Heap (F : Type → Type) (P : Type) := Nat → Option (F (Value P))

def edgesOf (heap : Heap F P) (a : Nat) : List (Value P) := ((heap a).map Shape.children).getD []

theorem edgesOf_some {heap : Heap F P} {a : Nat} {o : F (Value P)} (h : heap a = some o) :
    edgesOf heap a = Shape.children o := by
  rw [edgesOf, h]
  rfl

/-- Renamed by `f`, the graph of `root` in `heap` is the graph of `root'` in `heap'`. -/
structure Embeds (heap heap' : Heap F P) (root root' : Value P) (f : Nat → Nat) : Prop where
  start : root' = root.map f
  node : ∀ a, Reach (edgesOf heap) root a →
    ∃ o, heap a = some o ∧ heap' (f a) = some (Shape.map (Value.map f) o)
  inj : ∀ a b, Reach (edgesOf heap) root a → Reach (edgesOf heap) root b → f a = f b → a = b

/-- Two values of the same graph. -/
def SameGraph (heap heap' : Heap F P) (root root' : Value P) : Prop :=
  ∃ f, Embeds heap heap' root root' f

variable {heap heap' heap'' : Heap F P} {root root' root'' : Value P} {f g : Nat → Nat}

theorem Embeds.edges (h : Embeds heap heap' root root' f) {a : Nat}
    (ha : Reach (edgesOf heap) root a) :
    edgesOf heap' (f a) = (edgesOf heap a).map (Value.map f) := by
  obtain ⟨o, ho, ho'⟩ := h.node a ha
  rw [edgesOf_some ho, edgesOf_some ho', Shape.children_map]

theorem Embeds.reach (h : Embeds heap heap' root root' f) {a : Nat}
    (ha : Reach (edgesOf heap) root a) : Reach (edgesOf heap') root' (f a) := by
  induction ha with
  | root heq => exact .root (by rw [h.start, heq]; rfl)
  | @step a b hreach hmem ih =>
    refine ih.step ?_
    rw [h.edges hreach]
    exact List.mem_map.mpr ⟨.ref b, hmem, rfl⟩

/-- Everything reached in the image is the image of something reached. -/
theorem Embeds.exists_of_reach (h : Embeds heap heap' root root' f) {b : Nat}
    (hb : Reach (edgesOf heap') root' b) : ∃ a, Reach (edgesOf heap) root a ∧ f a = b := by
  induction hb with
  | root heq =>
    rw [h.start] at heq
    cases hroot : root with
    | prim p => rw [hroot] at heq; cases heq
    | ref a =>
      rw [hroot] at heq
      cases heq
      exact ⟨a, .root rfl, rfl⟩
  | step _ hmem ih =>
    obtain ⟨a, ha, rfl⟩ := ih
    rw [h.edges ha] at hmem
    obtain ⟨v, hv, heq⟩ := List.mem_map.mp hmem
    cases v with
    | prim p => cases heq
    | ref c =>
      cases heq
      exact ⟨c, ha.step hv, rfl⟩

theorem Embeds.trans (h : Embeds heap heap' root root' f) (h' : Embeds heap' heap'' root' root'' g) :
    Embeds heap heap'' root root'' (g ∘ f) where
  start := by rw [h'.start, h.start, Value.map_map]
  node a ha := by
    obtain ⟨o, ho, ho'⟩ := h.node a ha
    obtain ⟨o', hsome, hnode⟩ := h'.node (f a) (h.reach ha)
    rw [ho'] at hsome
    cases hsome
    refine ⟨o, ho, ?_⟩
    rw [Function.comp, hnode, Shape.map_map]
    exact congrArg some (Shape.map_congr fun v _ => Value.map_map f g v)
  inj a b ha hb heq := h.inj a b ha hb (h'.inj _ _ (h.reach ha) (h.reach hb) heq)

theorem Embeds.symm (h : Embeds heap heap' root root' f) :
    ∃ g, Embeds heap' heap root' root g := by
  classical
  -- The inverse on what is reached.
  have hinv : ∀ b, ∃ a, Reach (edgesOf heap') root' b → Reach (edgesOf heap) root a ∧ f a = b := by
    intro b
    by_cases hb : Reach (edgesOf heap') root' b
    · obtain ⟨a, ha⟩ := h.exists_of_reach hb
      exact ⟨a, fun _ => ha⟩
    · exact ⟨0, fun hreach => absurd hreach hb⟩
  choose g hg using hinv
  have hleft : ∀ a, Reach (edgesOf heap) root a → g (f a) = a := fun a ha =>
    h.inj _ _ (hg (f a) (h.reach ha)).1 ha (hg (f a) (h.reach ha)).2
  refine ⟨g, ?_, fun b hb => ?_, fun b c hb hc heq => ?_⟩
  · rw [h.start, Value.map_map]
    exact (Value.map_eq_self fun a ha => hleft a (.root ha)).symm
  · obtain ⟨ha, hfa⟩ := hg b hb
    obtain ⟨o, ho, ho'⟩ := h.node (g b) ha
    rw [hfa] at ho'
    refine ⟨_, ho', ?_⟩
    rw [ho, Shape.map_map]
    have hid : Shape.map (Value.map g ∘ Value.map f) o = Shape.map id o := by
      refine Shape.map_congr fun v hv => ?_
      rw [Function.comp, Value.map_map]
      refine Value.map_eq_self fun c hc => hleft c (ha.step ?_)
      rw [edgesOf_some ho, ← hc]
      exact hv
    rw [hid, Shape.map_id]
  · rw [← (hg b hb).2, ← (hg c hc).2, heq]

/-- The graph of a part is renamed with the whole. -/
theorem Embeds.part (h : Embeds heap heap' root root' f) {v : Value P}
    (hsub : ∀ a, Reach (edgesOf heap) v a → Reach (edgesOf heap) root a) :
    Embeds heap heap' v (v.map f) f where
  start := rfl
  node a ha := h.node a (hsub a ha)
  inj a b ha hb := h.inj a b (hsub a ha) (hsub b hb)

theorem SameGraph.symm (h : SameGraph heap heap' root root') : SameGraph heap' heap root' root := by
  obtain ⟨f, h⟩ := h
  exact h.symm

theorem SameGraph.trans (h : SameGraph heap heap' root root')
    (h' : SameGraph heap' heap'' root' root'') : SameGraph heap heap'' root root'' := by
  obtain ⟨f, h⟩ := h
  obtain ⟨g, h'⟩ := h'
  exact ⟨g ∘ f, h.trans h'⟩

end Renaming

end Graph
