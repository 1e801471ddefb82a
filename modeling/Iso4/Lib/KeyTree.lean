/-
Finite trees with labelled edges.

A node lists its children under keys, a leaf holds a value.  `leaves g` lists the leaves
that `g` takes, with their paths, depth first; `follow` looks one path up.  On a tree
whose nodes have no key twice the two agree:

* `mem_leaves_iff` — what is listed at a path is what is found there.
-/
import Mathlib.Data.List.Nodup

/-- A tree with keys in `K` and values in `A`. -/
inductive KeyTree (K A : Type) where
  | leaf (a : A)
  | node (children : List (K × KeyTree K A))

namespace KeyTree

variable {K A B : Type}

mutual

/-- What `g` takes of the leaves, depth first, each with its path. -/
def leaves (g : A → Option B) : KeyTree K A → List (List K × B)
  | .leaf a => (g a).toList.map fun b => ([], b)
  | .node children => childLeaves g children

def childLeaves (g : A → Option B) : List (K × KeyTree K A) → List (List K × B)
  | [] => []
  | (k, t) :: rest => (leaves g t).map (fun l => (k :: l.1, l.2)) ++ childLeaves g rest

end

mutual

/-- No node has a key twice. -/
def Distinct : KeyTree K A → Prop
  | .leaf _ => True
  | .node children => (children.map Prod.fst).Nodup ∧ ChildrenDistinct children

def ChildrenDistinct : List (K × KeyTree K A) → Prop
  | [] => True
  | (_, t) :: rest => Distinct t ∧ ChildrenDistinct rest

end

theorem ChildrenDistinct.mem {children : List (K × KeyTree K A)} (h : ChildrenDistinct children) {k : K}
    {t : KeyTree K A} (hmem : (k, t) ∈ children) : Distinct t := by
  induction children with
  | nil => exact absurd hmem List.not_mem_nil
  | cons c rest ih =>
    obtain ⟨k', t'⟩ := c
    rcases List.mem_cons.mp hmem with heq | hmem
    · cases heq
      exact h.1
    · exact ih h.2 hmem

theorem mem_childLeaves {g : A → Option B} {children : List (K × KeyTree K A)} {p : List K} {b : B} :
    (p, b) ∈ childLeaves g children ↔
      ∃ k t q, (k, t) ∈ children ∧ p = k :: q ∧ (q, b) ∈ leaves g t := by
  induction children with
  | nil => simp [childLeaves]
  | cons c rest ih =>
    obtain ⟨k, t⟩ := c
    rw [childLeaves, List.mem_append, ih, List.mem_map]
    constructor
    · rintro (⟨⟨q, b⟩, hq, heq⟩ | ⟨k', t', q, hmem, hp, hq⟩)
      · cases heq
        exact ⟨k, t, q, List.mem_cons_self, rfl, hq⟩
      · exact ⟨k', t', q, List.mem_cons_of_mem _ hmem, hp, hq⟩
    · rintro ⟨k', t', q, hmem, hp, hq⟩
      rcases List.mem_cons.mp hmem with heq | hmem
      · cases heq
        exact Or.inl ⟨(q, b), hq, by rw [hp]⟩
      · exact Or.inr ⟨k', t', q, hmem, hp, hq⟩

variable [DecidableEq K]

/-- The child under a key. -/
def child (k : K) : List (K × KeyTree K A) → Option (KeyTree K A)
  | [] => none
  | (k', t) :: rest => if k' = k then some t else child k rest

theorem child_eq_some {children : List (K × KeyTree K A)} (h : (children.map Prod.fst).Nodup) {k : K}
    {t : KeyTree K A} : child k children = some t ↔ (k, t) ∈ children := by
  induction children with
  | nil => simp [child]
  | cons c rest ih =>
    obtain ⟨k', t'⟩ := c
    obtain ⟨hnot, hrest⟩ := List.nodup_cons.mp h
    rw [child, List.mem_cons]
    by_cases hk : k' = k
    · subst hk
      rw [if_pos rfl]
      have hout : (k', t) ∉ rest := fun hmem => hnot (List.mem_map.mpr ⟨_, hmem, rfl⟩)
      simp [hout, eq_comm]
    · rw [if_neg hk, ih hrest]
      simp [Ne.symm hk]

/-- What stands at a path. -/
def follow : List K → KeyTree K A → Option A
  | [], .leaf a => some a
  | [], .node _ => none
  | _ :: _, .leaf _ => none
  | k :: p, .node children => (child k children).bind (follow p)

theorem mem_leaves_iff {g : A → Option B} {t : KeyTree K A} (h : Distinct t) {p : List K} {b : B} :
    (p, b) ∈ leaves g t ↔ ∃ a, follow p t = some a ∧ g a = some b := by
  induction p generalizing t with
  | nil =>
    cases t with
    | leaf a => simp [leaves, follow]
    | node children =>
      rw [leaves, mem_childLeaves]
      simp [follow]
  | cons k p ih =>
    cases t with
    | leaf a => simp [leaves, follow]
    | node children =>
      rw [leaves, mem_childLeaves]
      constructor
      · rintro ⟨k', t, q, hmem, hp, hq⟩
        cases hp
        obtain ⟨a, hfollow, ha⟩ := (ih (h.2.mem hmem)).mp hq
        refine ⟨a, ?_, ha⟩
        rw [follow, (child_eq_some h.1).mpr hmem]
        exact hfollow
      · rintro ⟨a, hfollow, ha⟩
        rw [follow, Option.bind_eq_some_iff] at hfollow
        obtain ⟨t, hchild, hfollow⟩ := hfollow
        have hmem := (child_eq_some h.1).mp hchild
        exact ⟨k, t, p, hmem, rfl, (ih (h.2.mem hmem)).mpr ⟨a, hfollow, ha⟩⟩

end KeyTree
