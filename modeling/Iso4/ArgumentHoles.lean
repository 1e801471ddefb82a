/-
Bridge arguments with holes in their arrays: `assertNoArrayHoles` of
`packages/iso4-sandbox/src/ipc.ts`.

* `ArgumentHoles.visit` — what one turn of the loop does with an object it has not seen;
* `ArgumentHoles.visit_ok`, `ArgumentHoles.visit_error` — everything such a turn can do;
* `ArgumentHoles.Walked` — the nodes seen are dense, and their slots have been counted once each;
* `ArgumentHoles.assertNoArrayHoles_iff` — the walk ends, and refuses exactly the arguments that
  lead to a hole.
-/
import Mathlib.Tactic.Common
import Iso4.Lib.Worklist

namespace Iso4

namespace ArgumentHoles

open Relation Worklist

/-! ### Decoded values -/

/-- A primitive value, or the address of an object. -/
inductive Item (P : Type) (n : Nat) where
  | prim (p : P)
  | ref (a : Fin n)

/-- An object that a value blob can hold.  A slot of an array is `none` for a hole; an array has
named properties after its slots.  A leaf is a date, a buffer or anything else with no values. -/
inductive Obj (P : Type) (n : Nat) where
  | array (items : List (Option (Item P n))) (named : List (String × Item P n))
  | plain (props : List (String × Item P n))
  | map (entries : List (Item P n × Item P n))
  | set (items : List (Item P n))
  | error (cause : Option (Item P n))
  | leaf

/-- The objects of a decoded value, by their addresses. -/
abbrev Heap (P : Type) (n : Nat) := Fin n → Obj P n

section Walk

variable {P : Type} {n : Nat}

/-! ### `assertNoArrayHoles` -/

def holesMessage : String := "bridge call argument contains an array with holes"

/-- An object goes on the stack, a primitive value does not. -/
def push (stack : List (Fin n)) : Item P n → List (Fin n)
  | .prim _ => stack
  | .ref a => a :: stack

/-- The loop over the indices of an array. -/
def pushItems : List (Option (Item P n)) → List (Fin n) → Except String (List (Fin n))
  | [], stack => .ok stack
  -- `!(i in v)`
  | none :: _, _ => .error holesMessage
  | some item :: items, stack => pushItems items (push stack item)

/-- The values under `Object.keys(v)`: the indices that are there, then the names. -/
def keyedValues (items : List (Option (Item P n))) (named : List (String × Item P n)) :
    List (Item P n) :=
  items.filterMap id ++ named.map Prod.snd

/-- The stack and the slots counted after `v`. -/
def visit (heap : Heap P n) (blobBytes : Nat) (v : Fin n) (stack : List (Fin n)) (slots : Nat) :
    Except String (List (Fin n) × Nat) :=
  match heap v with
  | .array items named =>
    let slots := slots + items.length
    if blobBytes < slots then .error holesMessage
    else
      match pushItems items stack with
      | .error e => .error e
      -- Named properties follow the index keys.
      | .ok stack => .ok (((keyedValues items named).drop items.length).foldl push stack, slots)
  | .plain props => .ok ((props.map Prod.snd).foldl push stack, slots)
  | .map entries =>
    .ok ((entries.map Prod.snd).foldl push ((entries.map Prod.fst).foldl push stack), slots)
  | .set items => .ok (items.foldl push stack, slots)
  | .error cause => .ok (cause.toList.foldl push stack, slots)
  | .leaf => .ok (stack, slots)

/-- The loop from a state of its three variables. -/
def walk (heap : Heap P n) (blobBytes : Nat) (seen : Finset (Fin n)) (stack : List (Fin n))
    (slots : Nat) : Except String Unit :=
  match stack with
  | [] => .ok ()
  | v :: stack =>
    if _seen : v ∈ seen then walk heap blobBytes seen stack slots
    else
      match visit heap blobBytes v stack slots with
      | .error e => .error e
      | .ok (stack, slots) => walk heap blobBytes (insert v seen) stack slots
termination_by ((seenᶜ).card, stack.length)
decreasing_by
  · exact Prod.Lex.right _ (by simp)
  · exact Prod.Lex.left _ _ (unseen_lt _seen)

def assertNoArrayHoles (heap : Heap P n) (args : Fin n) (blobBytes : Nat) : Except String Unit :=
  walk heap blobBytes ∅ [args] 0

/-! ### What an object leads to -/

/-- The values of an object. -/
def Obj.values : Obj P n → List (Item P n)
  | .array items named => keyedValues items named
  | .plain props => props.map Prod.snd
  | .map entries => entries.map Prod.fst ++ entries.map Prod.snd
  | .set items => items
  | .error cause => cause.toList
  | .leaf => []

def Obj.HasHole : Obj P n → Prop
  | .array items _ => none ∈ items
  | _ => False

/-- How many slots an object has. -/
def Obj.slots : Obj P n → Nat
  | .array items _ => items.length
  | _ => 0

def Edge (heap : Heap P n) (a b : Fin n) : Prop := .ref b ∈ (heap a).values

/-- Each slot of a dense array cost a byte of the blob, and no two slots the same one. -/
def SlotsCost (heap : Heap P n) (args : Fin n) (blobBytes : Nat) : Prop :=
  ∃ byte : Fin n → Nat → Nat,
    (∀ a, ReflTransGen (Edge heap) args a → ¬ (heap a).HasHole →
      ∀ i < (heap a).slots, byte a i < blobBytes) ∧
    ∀ a, ReflTransGen (Edge heap) args a → ¬ (heap a).HasHole → ∀ i < (heap a).slots,
      ∀ b, ReflTransGen (Edge heap) args b → ¬ (heap b).HasHole → ∀ j < (heap b).slots,
        byte a i = byte b j → a = b ∧ i = j

/-! ### One turn -/

theorem mem_foldl_push (items : List (Item P n)) (stack : List (Fin n)) (b : Fin n) :
    b ∈ items.foldl push stack ↔ .ref b ∈ items ∨ b ∈ stack := by
  induction items generalizing stack with
  | nil => simp
  | cons item items ih =>
    rw [List.foldl_cons, ih]
    cases item with
    | prim p => simp [push]
    | ref a =>
      simp only [push, List.mem_cons, Item.ref.injEq]
      constructor
      · rintro (h | h | h)
        · exact .inl (.inr h)
        · exact .inl (.inl h)
        · exact .inr h
      · rintro ((h | h) | h)
        · exact .inr (.inl h)
        · exact .inl h
        · exact .inr (.inr h)

/-- A loop that comes to its end met no hole and has pushed every object. -/
theorem pushItems_ok {items : List (Option (Item P n))} {stack stack' : List (Fin n)}
    (h : pushItems items stack = .ok stack') :
    none ∉ items ∧ stack' = (items.filterMap id).foldl push stack := by
  induction items generalizing stack with
  | nil =>
    cases h
    exact ⟨List.not_mem_nil, rfl⟩
  | cons item items ih =>
    cases item with
    | none => cases h
    | some item =>
      obtain ⟨hdense, hstack⟩ := ih h
      exact ⟨by simpa using hdense, hstack⟩

theorem pushItems_error {items : List (Option (Item P n))} {stack : List (Fin n)} {e : String}
    (h : pushItems items stack = .error e) : none ∈ items ∧ e = holesMessage := by
  induction items generalizing stack with
  | nil => cases h
  | cons item items ih =>
    cases item with
    | none =>
      cases h
      exact ⟨List.mem_cons_self, rfl⟩
    | some item =>
      obtain ⟨hhole, he⟩ := ih h
      exact ⟨List.mem_cons_of_mem _ hhole, he⟩

theorem length_filterMap_of_dense {items : List (Option (Item P n))} (h : none ∉ items) :
    (items.filterMap id).length = items.length := by
  induction items with
  | nil => rfl
  | cons item items ih =>
    cases item with
    | none => exact absurd List.mem_cons_self h
    | some item =>
      have hrest := ih fun hmem => h (List.mem_cons_of_mem _ hmem)
      simpa using hrest

/-- The keys of a dense array past its length are its names. -/
theorem drop_keyedValues {items : List (Option (Item P n))} (h : none ∉ items)
    (named : List (String × Item P n)) :
    (keyedValues items named).drop items.length = named.map Prod.snd := by
  rw [keyedValues, ← length_filterMap_of_dense h, List.drop_left]

/-- A turn that goes on found no hole, counted the slots, and pushed what the object leads to. -/
theorem visit_ok {heap : Heap P n} {blobBytes slots slots' : Nat} {v : Fin n}
    {stack stack' : List (Fin n)} (h : visit heap blobBytes v stack slots = .ok (stack', slots')) :
    ¬ (heap v).HasHole ∧ slots' = slots + (heap v).slots ∧
      ∀ b, b ∈ stack' ↔ Edge heap v b ∨ b ∈ stack := by
  unfold visit at h
  unfold Edge
  cases hobj : heap v with
  | array items named =>
    rw [hobj] at h
    dsimp only at h
    split at h
    · cases h
    · cases hitems : pushItems items stack with
      | error e =>
        rw [hitems] at h
        cases h
      | ok pushed =>
        rw [hitems] at h
        obtain ⟨hdense, hpushed⟩ := pushItems_ok hitems
        dsimp only at h
        rw [drop_keyedValues hdense] at h
        cases h
        refine ⟨hdense, rfl, fun b => ?_⟩
        rw [hpushed, mem_foldl_push, mem_foldl_push, Obj.values, keyedValues, List.mem_append,
          or_left_comm, or_assoc]
  | plain props =>
    rw [hobj] at h
    cases h
    exact ⟨id, rfl, mem_foldl_push _ stack⟩
  | map entries =>
    rw [hobj] at h
    cases h
    refine ⟨id, rfl, fun b => ?_⟩
    rw [mem_foldl_push, mem_foldl_push, Obj.values, List.mem_append, or_left_comm, or_assoc]
  | set items =>
    rw [hobj] at h
    cases h
    exact ⟨id, rfl, mem_foldl_push _ stack⟩
  | error cause =>
    rw [hobj] at h
    cases h
    exact ⟨id, rfl, mem_foldl_push _ stack⟩
  | leaf =>
    rw [hobj] at h
    cases h
    exact ⟨id, rfl, mem_foldl_push [] stack⟩

/-- A turn that refuses found a hole, or counted more slots than the blob has bytes. -/
theorem visit_error {heap : Heap P n} {blobBytes slots : Nat} {v : Fin n} {stack : List (Fin n)}
    {e : String} (h : visit heap blobBytes v stack slots = .error e) :
    e = holesMessage ∧ ((heap v).HasHole ∨ blobBytes < slots + (heap v).slots) := by
  unfold visit at h
  cases hobj : heap v with
  | array items named =>
    rw [hobj] at h
    dsimp only at h
    split at h
    · next hover =>
      cases h
      exact ⟨rfl, .inr hover⟩
    · cases hitems : pushItems items stack with
      | error e' =>
        rw [hitems] at h
        obtain ⟨hhole, rfl⟩ := pushItems_error hitems
        cases h
        exact ⟨rfl, .inl hhole⟩
      | ok pushed =>
        rw [hitems] at h
        cases h
  | plain props => rw [hobj] at h; cases h
  | map entries => rw [hobj] at h; cases h
  | set items => rw [hobj] at h; cases h
  | error cause => rw [hobj] at h; cases h
  | leaf => rw [hobj] at h; cases h

/-! ### The walk -/

/-- What the loop keeps: the objects seen are dense, and `slots` counts the slots of each once. -/
structure Walked (heap : Heap P n) (args : Fin n) (seen : Finset (Fin n)) (stack : List (Fin n))
    (slots : Nat) : Prop where
  frontier : Frontier (Edge heap) args seen stack
  dense : ∀ a ∈ seen, ¬ (heap a).HasHole
  counted : slots = ∑ a ∈ seen, (heap a).slots

section Turns

variable {heap : Heap P n} {args v : Fin n} {blobBytes slots slots' : Nat}
  {seen : Finset (Fin n)} {stack stack' : List (Fin n)}

theorem Walked.init : Walked heap args ∅ [args] 0 where
  frontier := Frontier.init
  dense a ha := absurd ha (Finset.notMem_empty a)
  counted := Finset.sum_empty.symm

theorem Walked.skip (h : Walked heap args seen (v :: stack) slots) (hv : v ∈ seen) :
    Walked heap args seen stack slots :=
  ⟨h.frontier.skip hv, h.dense, h.counted⟩

theorem Walked.reached (h : Walked heap args seen (v :: stack) slots) :
    ReflTransGen (Edge heap) args v :=
  h.frontier.reached v (.inr List.mem_cons_self)

theorem Walked.counted_insert (h : Walked heap args seen stack slots) (hv : v ∉ seen) :
    slots + (heap v).slots = ∑ a ∈ insert v seen, (heap a).slots := by
  rw [Finset.sum_insert hv, h.counted, Nat.add_comm]

theorem Walked.visit (h : Walked heap args seen (v :: stack) slots) (hv : v ∉ seen)
    (hvisit : visit heap blobBytes v stack slots = .ok (stack', slots')) :
    Walked heap args (insert v seen) stack' slots' := by
  obtain ⟨hdense, hslots, hstack⟩ := visit_ok hvisit
  refine ⟨h.frontier.visit hstack, ?_, ?_⟩
  · intro a ha
    obtain rfl | ha := Finset.mem_insert.mp ha
    · exact hdense
    · exact h.dense a ha
  · rw [hslots, h.counted_insert hv]

/-- The count is over the blob only when there is a hole. -/
theorem Walked.hole_of_error (h : Walked heap args seen (v :: stack) slots) (hv : v ∉ seen)
    (hcost : SlotsCost heap args blobBytes) {e : String}
    (hvisit : ArgumentHoles.visit heap blobBytes v stack slots = .error e) : (heap v).HasHole := by
  obtain ⟨-, hhole | hover⟩ := visit_error hvisit
  · exact hhole
  · by_contra hdense
    obtain ⟨byte, hlt, hinj⟩ := hcost
    have hall : ∀ a ∈ insert v seen,
        ReflTransGen (Edge heap) args a ∧ ¬ (heap a).HasHole := by
      intro a ha
      obtain rfl | ha := Finset.mem_insert.mp ha
      · exact ⟨h.reached, hdense⟩
      · exact ⟨h.frontier.reached a (.inl ha), h.dense a ha⟩
    have hle : ∑ a ∈ insert v seen, (heap a).slots ≤ blobBytes := by
      refine sum_le_of_injective byte (fun a ha => hlt a (hall a ha).1 (hall a ha).2) ?_
      intro a ha i hi b hb j hj
      exact hinj a (hall a ha).1 (hall a ha).2 i hi b (hall b hb).1 (hall b hb).2 j hj
    rw [← h.counted_insert hv] at hle
    omega

end Turns

theorem walk_eq {heap : Heap P n} {args : Fin n} {blobBytes slots : Nat} {seen : Finset (Fin n)}
    {stack : List (Fin n)} (hcost : SlotsCost heap args blobBytes)
    (h : Walked heap args seen stack slots) :
    (walk heap blobBytes seen stack slots = .ok () ∧
        ∀ a, ReflTransGen (Edge heap) args a → ¬ (heap a).HasHole) ∨
      walk heap blobBytes seen stack slots = .error holesMessage ∧
        ∃ a, ReflTransGen (Edge heap) args a ∧ (heap a).HasHole := by
  induction seen, stack, slots using walk.induct heap blobBytes with
  | case1 seen slots =>
    rw [walk]
    exact .inl ⟨rfl, fun a ha => h.dense a (h.frontier.done.mpr ha)⟩
  | case2 seen slots v stack hv ih =>
    rw [walk, dif_pos hv]
    exact ih (h.skip hv)
  | case3 seen slots v stack hv e hvisit =>
    rw [walk, dif_neg hv, hvisit]
    obtain ⟨rfl, -⟩ := visit_error hvisit
    exact .inr ⟨rfl, v, h.reached, h.hole_of_error hv hcost hvisit⟩
  | case4 seen slots v stack hv stack' slots' hvisit ih =>
    rw [walk, dif_neg hv, hvisit]
    exact ih (h.visit hv hvisit)

/-- The walk ends; it refuses when the arguments lead to an array with a hole, and then only. -/
theorem assertNoArrayHoles_iff (heap : Heap P n) (args : Fin n) {blobBytes : Nat}
    (hcost : SlotsCost heap args blobBytes) :
    (assertNoArrayHoles heap args blobBytes = .error holesMessage ↔
        ∃ a, ReflTransGen (Edge heap) args a ∧ (heap a).HasHole) ∧
      (assertNoArrayHoles heap args blobBytes = .ok () ↔
        ∀ a, ReflTransGen (Edge heap) args a → ¬ (heap a).HasHole) := by
  obtain ⟨hok, hnone⟩ | ⟨herror, a, ha, hhole⟩ :=
    walk_eq hcost (Walked.init : Walked heap args ∅ [args] 0)
  · rw [assertNoArrayHoles, hok]
    constructor
    · constructor
      · intro h
        cases h
      · rintro ⟨a, ha, hhole⟩
        exact absurd hhole (hnone a ha)
    · exact ⟨fun _ => hnone, fun _ => rfl⟩
  · rw [assertNoArrayHoles, herror]
    constructor
    · exact ⟨fun _ => ⟨a, ha, hhole⟩, fun _ => rfl⟩
    · constructor
      · intro h
        cases h
      · intro hnone
        exact absurd hhole (hnone a ha)

end Walk

/-- The arguments hold an array with one hole, and it refers back to them. -/
def holedArguments : Heap Unit 2
  | 0 => .array [some (.ref 1)] []
  | 1 => .array [none] [("back", .ref 0)]

theorem assertNoArrayHoles_iff_holed :
    assertNoArrayHoles holedArguments 0 1 = .error holesMessage := by
  have hcost : SlotsCost holedArguments 0 1 := by
    have hzero : ∀ a, ¬ (holedArguments a).HasHole → ∀ i < (holedArguments a).slots,
        a = 0 ∧ i = 0 := by
      intro a hdense i hi
      obtain rfl | rfl : a = 0 ∨ a = 1 := by omega
      · exact ⟨rfl, by simpa [holedArguments, Obj.slots] using hi⟩
      · exact absurd (List.mem_singleton.mpr rfl) hdense
    refine ⟨fun _ i => i, fun a _ hdense i hi => ?_, fun a _ hdense i hi b _ hdense' j hj _ => ?_⟩
    · show i < 1
      have hi := (hzero a hdense i hi).2
      omega
    · obtain ⟨rfl, rfl⟩ := hzero a hdense i hi
      obtain ⟨rfl, rfl⟩ := hzero b hdense' j hj
      exact ⟨rfl, rfl⟩
  have hedge : Edge holedArguments 0 1 := List.mem_singleton.mpr rfl
  exact (assertNoArrayHoles_iff holedArguments 0 hcost).1.mpr
    ⟨1, .single hedge, List.mem_singleton.mpr rfl⟩

end ArgumentHoles

end Iso4
