/-
A part of a value beside an instance of a host type.

The instance forces a copy of the whole value, and so of the part that holds none.  The copy keeps
natives and errors in their places and rebuilds everything else; here it is compared with the part
itself, as the serializer writes both.

* `Hostless`, `PartCopy` — a part without host types, and its copy;
* `accepted_copy_iff` — when the serializer accepts the copy;
* `sameGraph_copy_iff` — when it writes the copy as it writes the part.
-/
import Iso4.HostGraphs

namespace Iso4

open Graph Js

/-! ### Parts without host types -/

/-- An object of the host that is no instance of a host type. -/
def JsObject.HasNoHost {V : Type} : JsObject V → Prop
  | .host _ | .headers _ | .request _ _ _ _ | .response _ _ _ _ | .bodyStream _ => False
  | _ => True

/-- A host value in which no instance of a host type is reached. -/
structure Hostless (heap : List (JsObject JsValue)) (v : JsValue) : Prop where
  wf : WfHeap heap
  inHeap : InHeap heap v
  kinds : ∀ a o, Reached heap v a → heap[a]? = some o → o.HasNoHost

/-- What the serializer writes of a heap. -/
abbrev writtenOf (heap : List (JsObject JsValue)) : JsHeap := writtenHeap fun a => heap[a]?

theorem writtenOf_some {heap : List (JsObject JsValue)} {a : Nat} {o : JsObject JsValue}
    (h : heap[a]? = some o) : writtenOf heap a = o.written := by
  rw [writtenOf, writtenHeap, h]
  rfl

theorem Hostless.get {heap : List (JsObject JsValue)} {v : JsValue} (h : Hostless heap v) {a : Nat}
    (ha : Walk heap v a) : ∃ o, heap[a]? = some o := by
  have hlt : a < heap.length := by
    cases ha with
    | root heq => exact h.inHeap a heq
    | @step b _ hb hmem =>
      cases ho : heap[b]? with
      | none =>
        rw [walkEdges, ho] at hmem
        exact absurd hmem List.not_mem_nil
      | some o =>
        rw [walkEdges_some ho] at hmem
        exact h.wf.closed b o ho a (ref_mem_children hmem)
  exact ⟨heap[a], List.getElem?_eq_getElem hlt⟩

theorem Hostless.kind {heap : List (JsObject JsValue)} {v : JsValue} (h : Hostless heap v) {a : Nat}
    {o : JsObject JsValue} (ha : Walk heap v a) (ho : heap[a]? = some o) : o.HasNoHost :=
  h.kinds a o (reached_of_walk ha) ho

/-- What the serializer writes of an object is some of what the object holds. -/
theorem children_written {o p : JsObject JsValue} (h : o.written = some p) {u : JsValue}
    (hu : u ∈ p.children) : u ∈ o.children := by
  cases o with
  | boxed _ _ => cases h; exact absurd hu List.not_mem_nil
  | host _ => cases h; exact absurd hu List.not_mem_nil
  | record _ _ => cases h; exact hu
  | array _ _ => cases h; exact hu
  | map _ => cases h; exact hu
  | set _ => cases h; exact hu
  | native _ => cases h; exact hu
  | error _ _ _ => cases h; exact hu
  | _ => cases h

/-- In a well-formed heap the serializer reaches objects only. -/
theorem written_lt {heap : List (JsObject JsValue)} {v : JsValue} (hwf : WfHeap heap)
    (hv : InHeap heap v) {a : Nat} (ha : Reach (edgesOf (writtenOf heap)) v a) : a < heap.length := by
  cases ha with
  | root heq => exact hv a heq
  | @step b _ _ hmem =>
    cases ho : heap[b]? with
    | none =>
      rw [edgesOf, writtenOf, writtenHeap, ho] at hmem
      exact absurd hmem List.not_mem_nil
    | some o =>
      cases hp : o.written with
      | none =>
        rw [edgesOf, writtenOf_some ho, hp] at hmem
        exact absurd hmem List.not_mem_nil
      | some p =>
        rw [edgesOf_some ((writtenOf_some ho).trans hp)] at hmem
        exact hwf.closed b o ho a (children_written hp hmem)

/-! ### Rebuilt objects -/

/-- A copy is written, and holds the stand-ins of what was read. -/
theorem rebuilt_written {o : JsObject JsValue} (hkept : o.isKept = false) (hhost : o.HasNoHost)
    (hthrows : ∀ proxy, o ≠ .refused proxy .throws) (hwf : o.Wf) {f : Nat → Nat}
    (hf : ∀ a b, .ref a ∈ o.walked → .ref b ∈ o.walked → f a = f b → a = b) :
    ∃ p, (o.rebuilt (o.walked.map (Value.map f))).written = some p ∧
      p.children = o.walked.map (Value.map f) := by
  -- A record of the keys and the stand-ins, whatever the values were read from.
  have hrecord : ∀ props : List (String × JsValue), (props.map Prod.fst).Nodup →
      ∃ p, (recordOf (props.map Prod.fst) ((props.map Prod.snd).map (Value.map f))).written = some p ∧
        p.children = (props.map Prod.snd).map (Value.map f) := by
    intro props hnodup
    refine ⟨.record true (mapProps (Value.map f) props), ?_, map_snd_mapProps _ props⟩
    rw [recordOf_eq hnodup (by simp), zip_map_fst_snd]
    rfl
  have harray : ∀ values : List JsValue, ∃ p, (JsObject.array ((values.map (Value.map f)).map some)
      []).written = some p ∧ p.children = values.map (Value.map f) := by
    intro values
    refine ⟨_, rfl, ?_⟩
    show ((values.map (Value.map f)).map some).filterMap id ++ [] = _
    rw [List.append_nil, List.filterMap_map]
    exact List.filterMap_some
  cases o with
  | record ordinary props => exact hrecord props hwf
  | array elements named => exact harray _
  | map entries =>
    refine ⟨_, written_rebuilt (o := .map entries) trivial hwf hf, ?_⟩
    exact JsObject.children_mapValues _ (JsObject.map entries)
  | set items => exact ⟨_, written_rebuilt (o := .set items) trivial hwf hf, rfl⟩
  | boxed value own => exact hrecord own hwf
  | refused proxy view =>
    cases view with
    | record props => exact hrecord props hwf
    | elements items => exact harray items
    | kept => cases hkept
    | throws => exact absurd rfl (hthrows proxy)
  | native _ => cases hkept
  | error _ _ _ => cases hkept
  | _ => exact hhost.elim

/-! ### The copy of a part -/

/-- A copy of the objects walked through, behind the heap; what is kept stands for itself. -/
structure PartCopy (heap : List (JsObject JsValue)) (u : JsValue) (heap' : List (JsObject JsValue))
    (f : Nat → Nat) : Prop where
  old : ∀ a, a < heap.length → heap'[a]? = heap[a]?
  kept : ∀ a o, Walk heap u a → heap[a]? = some o → o.isKept = true → f a = a
  copied : ∀ a o, Walk heap u a → heap[a]? = some o → o.isKept = false →
    heap.length ≤ f a ∧ (∀ proxy, o ≠ .refused proxy .throws) ∧
      heap'[f a]? = some (o.rebuilt (o.walked.map (Value.map f)))
  inj : ∀ a b, Walk heap u a → Walk heap u b → f a = f b → a = b

section Part

variable {heap : List (JsObject JsValue)} {u : JsValue} {heap' : List (JsObject JsValue)}
  {f : Nat → Nat}

theorem walk_walked {a c : Nat} {o : JsObject JsValue} (ha : Walk heap u a) (ho : heap[a]? = some o)
    (hc : .ref c ∈ o.walked) : Walk heap u c :=
  ha.step (by rwa [walkEdges_some ho])

namespace PartCopy

variable (hcopy : PartCopy heap u heap' f) (hpart : Hostless heap u)

include hcopy hpart

/-- The cell of the stand-in, as the serializer writes it. -/
theorem written_cell {a : Nat} {o : JsObject JsValue} (ha : Walk heap u a) (ho : heap[a]? = some o)
    (hkept : o.isKept = false) :
    ∃ p, writtenOf heap' (f a) = some p ∧ p.children = o.walked.map (Value.map f) := by
  obtain ⟨-, hthrows, hcell⟩ := hcopy.copied a o ha ho hkept
  obtain ⟨p, hp, hchildren⟩ := rebuilt_written hkept (hpart.kind ha ho) hthrows (hpart.wf.wf a o ho)
    fun b c hb hc => hcopy.inj b c (walk_walked ha ho hb) (walk_walked ha ho hc)
  exact ⟨p, (writtenOf_some hcell).trans hp, hchildren⟩

omit hpart in
/-- What is kept stands in its old cell. -/
theorem kept_cell {a : Nat} {o : JsObject JsValue} (ha : Walk heap u a) (ho : heap[a]? = some o)
    (hkept : o.isKept = true) : f a = a ∧ heap'[f a]? = some o := by
  have hself := hcopy.kept a o ha ho hkept
  refine ⟨hself, ?_⟩
  rw [hself, hcopy.old a (List.getElem?_eq_some_iff.mp ho).1, ho]

/-- The stand-ins of what is walked through are reached by the serializer. -/
theorem reach {a : Nat} (ha : Walk heap u a) :
    Reach (edgesOf (writtenOf heap')) (u.map f) (f a) := by
  induction ha with
  | root heq => exact .root (by rw [heq]; rfl)
  | @step a c ha hmem ih =>
    obtain ⟨o, ho⟩ := hpart.get ha
    rw [walkEdges_some ho] at hmem
    cases hkept : o.isKept with
    | true =>
      rw [walked_of_kept hkept] at hmem
      exact absurd hmem List.not_mem_nil
    | false =>
      obtain ⟨p, hp, hchildren⟩ := hcopy.written_cell hpart ha ho hkept
      refine ih.step ?_
      rw [edgesOf_some hp]
      show Value.ref (f c) ∈ p.children
      rw [hchildren]
      exact List.mem_map.mpr ⟨.ref c, hmem, rfl⟩

omit hpart in
/-- The old objects are written as before. -/
theorem written_old {a : Nat} (ha : a < heap.length) : writtenOf heap' a = writtenOf heap a := by
  show ((heap'[a]?).bind JsObject.written) = ((heap[a]?).bind JsObject.written)
  rw [hcopy.old a ha]

/-- From an old object the serializer reaches the same, before and after the copy. -/
theorem reach_old {a c : Nat} (ha : a < heap.length) :
    Reach (edgesOf (writtenOf heap')) (.ref a) c ↔ Reach (edgesOf (writtenOf heap)) (.ref a) c := by
  have hin : InHeap heap (.ref a) := by
    intro b hb
    cases hb
    exact ha
  constructor
  · intro h
    induction h with
    | root heq => exact .root heq
    | @step b c _ hmem ih =>
      refine ih.step ?_
      rwa [edgesOf, hcopy.written_old (written_lt hpart.wf hin ih)] at hmem
  · intro h
    induction h with
    | root heq => exact .root heq
    | @step b c hb hmem ih =>
      refine ih.step ?_
      rwa [edgesOf, hcopy.written_old (written_lt hpart.wf hin hb)]

/-- The serializer accepts an old object before the copy when it does after it. -/
theorem accepted_old {a : Nat} (ha : a < heap.length) :
    Accepted (fun b => heap'[b]?) (.ref a) ↔ Accepted (fun b => heap[b]?) (.ref a) := by
  have hin : InHeap heap (.ref a) := by
    intro b hb
    cases hb
    exact ha
  constructor
  · intro h
    refine ⟨nofun, fun b hb => ?_⟩
    obtain ⟨o, ho, hdata⟩ := h.node b ((hcopy.reach_old hpart ha).mpr hb)
    exact ⟨o, (hcopy.written_old (written_lt hpart.wf hin hb)).symm.trans ho, hdata⟩
  · intro h
    refine ⟨nofun, fun b hb => ?_⟩
    have hb' := (hcopy.reach_old hpart ha).mp hb
    obtain ⟨o, ho, hdata⟩ := h.node b hb'
    exact ⟨o, (hcopy.written_old (written_lt hpart.wf hin hb')).trans ho, hdata⟩

end PartCopy

/-! ### Acceptance -/

/-- What the serializer refuses of a part, and refuses of its copy: a function or a symbol, what is
kept or cannot be read, and an error that holds such. -/
inductive Refusal (heap : List (JsObject JsValue)) (u : JsValue) : Prop where
  | value : u = .prim .behaviour → Refusal heap u
  | held (a : Nat) (o : JsObject JsValue) : Walk heap u a → heap[a]? = some o →
      .prim .behaviour ∈ o.walked → Refusal heap u
  | kept (a : Nat) (proxy : Bool) : Walk heap u a → heap[a]? = some (.refused proxy .kept) →
      Refusal heap u
  | throws (a : Nat) (proxy : Bool) : Walk heap u a → heap[a]? = some (.refused proxy .throws) →
      Refusal heap u
  | error (a : Nat) (name message : String) (cause : Option JsValue) : Walk heap u a →
      heap[a]? = some (.error name message cause) → ¬Accepted (fun b => heap[b]?) (.ref a) →
      Refusal heap u

/-- A part of what is accepted is accepted. -/
theorem Accepted.of_reach {h : JsHeap} {v : JsValue} (hacc : Accepted h v) {a : Nat}
    (ha : Reach (edgesOf (writtenHeap h)) v a) : Accepted h (.ref a) :=
  ⟨nofun, fun b hb => hacc.node b (ha.trans hb)⟩

/-- What is written as something accepted is accepted. -/
theorem Accepted.of_sameGraph {h h' : JsHeap} {v v' : JsValue} (hacc : Accepted h v)
    (hsame : SameGraph (writtenHeap h) (writtenHeap h') v v') : Accepted h' v' := by
  obtain ⟨g, hg⟩ := hsame
  refine ⟨fun heq => ?_, fun b hb => ?_⟩
  · rw [hg.start] at heq
    cases v with
    | prim p =>
      cases heq
      exact hacc.start rfl
    | ref a => cases heq
  · obtain ⟨a, ha, rfl⟩ := hg.exists_of_reach hb
    obtain ⟨o, ho, hdata⟩ := hacc.node a ha
    obtain ⟨p, hp, hcell⟩ := hg.node a ha
    cases ho.symm.trans hp
    refine ⟨_, hcell, fun hmem => ?_⟩
    replace hmem : Value.prim Prim.behaviour ∈ (o.mapValues (Value.map g)).children := hmem
    rw [JsObject.children_mapValues] at hmem
    obtain ⟨u, hu, heq⟩ := List.mem_map.mp hmem
    cases u with
    | prim p =>
      cases heq
      exact hdata hu
    | ref c => cases heq

/-- What is kept in its place is accepted, when nothing is refused. -/
theorem accepted_kept (href : ¬Refusal heap u) {a : Nat} {o : JsObject JsValue}
    (ha : Walk heap u a) (ho : heap[a]? = some o) (hkept : o.isKept = true) :
    Accepted (fun b => heap[b]?) (.ref a) := by
  cases o with
  | native leaf =>
    have hwritten : writtenOf heap a = some (.native leaf) := writtenOf_some ho
    have hreach : ∀ b, Reach (edgesOf (writtenOf heap)) (.ref a) b → b = a := by
      intro b hb
      induction hb with
      | root heq => exact (Value.ref.inj heq).symm
      | step _ hmem ih =>
        rw [ih, edgesOf_some hwritten] at hmem
        exact absurd hmem List.not_mem_nil
    refine ⟨nofun, fun b hb => ⟨.native leaf, ?_, List.not_mem_nil⟩⟩
    rw [hreach b hb]
    exact hwritten
  | error name message cause => exact not_not.mp fun h => href (.error a _ _ _ ha ho h)
  | refused proxy view =>
    cases view with
    | kept => exact absurd (.kept a proxy ha ho) href
    | _ => cases hkept
  | _ => cases hkept

/-- **When the serializer accepts the copy of a part.** -/
theorem accepted_copy_iff (hcopy : PartCopy heap u heap' f) (hpart : Hostless heap u) :
    Accepted (fun a => heap'[a]?) (u.map f) ↔ ¬Refusal heap u := by
  constructor
  · intro h href
    have hnode : ∀ a, Walk heap u a → ∃ p, writtenOf heap' (f a) = some p ∧
        Value.prim Prim.behaviour ∉ p.children := fun a ha => h.node _ (hcopy.reach hpart ha)
    cases href with
    | value heq =>
      subst heq
      exact h.start rfl
    | held a o ha ho hmem =>
      cases hkept : o.isKept with
      | true =>
        rw [walked_of_kept hkept] at hmem
        exact absurd hmem List.not_mem_nil
      | false =>
        obtain ⟨p, hp, hchildren⟩ := hcopy.written_cell hpart ha ho hkept
        obtain ⟨p', hp', hdata⟩ := hnode a ha
        rw [hp] at hp'
        cases hp'
        rw [hchildren] at hdata
        exact hdata (List.mem_map.mpr ⟨_, hmem, rfl⟩)
    | kept a proxy ha ho =>
      obtain ⟨-, hcell⟩ := hcopy.kept_cell ha ho rfl
      obtain ⟨p, hp, -⟩ := hnode a ha
      rw [writtenOf_some hcell] at hp
      cases hp
    | throws a proxy ha ho => exact (hcopy.copied a _ ha ho rfl).2.1 proxy rfl
    | error a name message cause ha ho hnot =>
      obtain ⟨hself, -⟩ := hcopy.kept_cell ha ho rfl
      have hlt := (List.getElem?_eq_some_iff.mp ho).1
      have hreach := hcopy.reach hpart ha
      rw [hself] at hreach
      exact hnot ((hcopy.accepted_old hpart hlt).mp (h.of_reach hreach))
  · intro href
    -- What the serializer reaches are copies, and what is reached from something kept.
    set Known : Nat → Prop := fun b =>
      (∃ a o, Walk heap u a ∧ heap[a]? = some o ∧ o.isKept = false ∧ b = f a) ∨
        ∃ a, a < heap.length ∧ Accepted (fun b => heap'[b]?) (.ref a) ∧
          Reach (edgesOf (writtenOf heap')) (.ref a) b with hKnown
    have hwalk : ∀ {a}, Walk heap u a → Known (f a) := by
      intro a ha
      obtain ⟨o, ho⟩ := hpart.get ha
      have hlt := (List.getElem?_eq_some_iff.mp ho).1
      cases hkept : o.isKept with
      | false => exact .inl ⟨a, o, ha, ho, hkept, rfl⟩
      | true =>
        refine .inr ⟨a, hlt, (hcopy.accepted_old hpart hlt).mpr (accepted_kept href ha ho hkept), ?_⟩
        rw [(hcopy.kept_cell ha ho hkept).1]
        exact .root rfl
    have hreach : ∀ {b}, Reach (edgesOf (writtenOf heap')) (u.map f) b → Known b := by
      intro b hb
      induction hb with
      | @root b heq =>
        cases u with
        | prim p => cases heq
        | ref a =>
          cases heq
          exact hwalk (.root rfl)
      | @step b c _ hmem ih =>
        rcases ih with ⟨a, o, ha, ho, hkept, rfl⟩ | ⟨a, hlt, hacc, hb⟩
        · obtain ⟨p, hp, hchildren⟩ := hcopy.written_cell hpart ha ho hkept
          rw [edgesOf_some hp] at hmem
          replace hmem : Value.ref c ∈ p.children := hmem
          rw [hchildren] at hmem
          obtain ⟨v, hv, heq⟩ := List.mem_map.mp hmem
          cases v with
          | prim p => cases heq
          | ref d =>
            cases heq
            exact hwalk (walk_walked ha ho hv)
        · exact .inr ⟨a, hlt, hacc, hb.step hmem⟩
    refine ⟨fun heq => ?_, fun b hb => ?_⟩
    · cases u with
      | prim p =>
        cases heq
        exact href (.value rfl)
      | ref a => cases heq
    · rcases hreach hb with ⟨a, o, ha, ho, hkept, rfl⟩ | ⟨a, -, hacc, hb⟩
      · obtain ⟨p, hp, hchildren⟩ := hcopy.written_cell hpart ha ho hkept
        refine ⟨p, hp, fun hmem => ?_⟩
        rw [hchildren] at hmem
        obtain ⟨v, hv, heq⟩ := List.mem_map.mp hmem
        cases v with
        | prim p =>
          cases heq
          exact href (.held a o ha ho hv)
        | ref d => cases heq
      · exact hacc.node b hb

/-! ### The same graph -/

/-- The copy of a part is written as the part is: what is rebuilt are plain objects, dense arrays,
Maps and Sets, and nothing that an error holds is rebuilt elsewhere. -/
structure RebuiltAlike (heap : List (JsObject JsValue)) (u : JsValue) : Prop where
  plain : ∀ a o, Walk heap u a → heap[a]? = some o →
    o.Plain ∨ (∃ leaf, o = .native leaf) ∨ ∃ name message cause, o = .error name message cause
  apart : ∀ a name message cause c o, Walk heap u a →
    heap[a]? = some (.error name message cause) → Reach (edgesOf (writtenOf heap)) (.ref a) c →
    Walk heap u c → heap[c]? = some o → o.isKept = true

/-- An object whose copy is written as the object is. -/
theorem plain_of_written {o p : JsObject JsValue} (hkept : o.isKept = false) (hhost : o.HasNoHost)
    (hwritten : o.written = some p) {f : Nat → Nat} {F : JsValue → JsValue}
    (hcopy : (o.rebuilt (o.walked.map (Value.map f))).written = some (p.mapValues F)) : o.Plain := by
  cases o with
  | record _ _ => trivial
  | map _ => trivial
  | set _ => trivial
  | array elements named =>
    cases hwritten
    injection hcopy with hcopy
    injection hcopy with helements hnamed
    refine ⟨fun element helement => ?_, List.map_eq_nil_iff.mp hnamed.symm⟩
    have hmem : element.map F ∈ elements.map (Option.map F) := List.mem_map_of_mem helement
    rw [← helements] at hmem
    obtain ⟨w, -, heq⟩ := List.mem_map.mp hmem
    cases element with
    | none => cases heq
    | some v => rfl
  | boxed value own =>
    cases hwritten
    cases hcopy
  | native _ => cases hkept
  | error _ _ _ => cases hkept
  | refused _ _ => cases hwritten
  | _ => exact hhost.elim

theorem isKept_of_plain {o : JsObject JsValue} (h : o.Plain) : o.isKept = false := by
  cases o with
  | record _ _ => rfl
  | map _ => rfl
  | set _ => rfl
  | array _ _ => rfl
  | _ => exact h.elim

/-- The copy of a plain object is written with the stand-ins of its values. -/
theorem PartCopy.written_plain (hcopy : PartCopy heap u heap' f) (hpart : Hostless heap u) {a : Nat}
    {o : JsObject JsValue} (ha : Walk heap u a) (ho : heap[a]? = some o) (hplain : o.Plain) :
    writtenOf heap' (f a) = o.written.map (JsObject.mapValues (Value.map f)) := by
  obtain ⟨-, -, hcell⟩ := hcopy.copied a o ha ho (isKept_of_plain hplain)
  rw [writtenOf_some hcell]
  refine written_rebuilt hplain (hpart.wf.wf a o ho) fun b c hb hc => ?_
  rw [← walked_of_plain hplain] at hb hc
  exact hcopy.inj b c (walk_walked ha ho hb) (walk_walked ha ho hc)

/-- A renaming that carries a part onto its copy goes to the stand-ins. -/
theorem alike_of_embeds (hcopy : PartCopy heap u heap' f) (hpart : Hostless heap u) {g : Nat → Nat}
    (h : Graph.Embeds (writtenOf heap) (writtenOf heap') u (u.map f) g) {a : Nat}
    (ha : Walk heap u a) :
    g a = f a ∧ Reach (edgesOf (writtenOf heap)) u a ∧ ∀ o, heap[a]? = some o →
      o.Plain ∨ (∃ leaf, o = .native leaf) ∨ ∃ name message cause, o = .error name message cause := by
  -- What an object is, once its stand-in is known.
  have hkind : ∀ {a o}, Walk heap u a → Reach (edgesOf (writtenOf heap)) u a → g a = f a →
      heap[a]? = some o →
      o.Plain ∨ (∃ leaf, o = .native leaf) ∨ ∃ name message cause, o = .error name message cause := by
    intro a o ha hreach hg ho
    obtain ⟨p, hp, hcell⟩ := h.node a hreach
    rw [writtenOf_some ho] at hp
    cases hkept : o.isKept with
    | true =>
      cases o with
      | native leaf => exact .inr (.inl ⟨leaf, rfl⟩)
      | error name message cause => exact .inr (.inr ⟨name, message, cause, rfl⟩)
      | refused _ _ => cases hp
      | _ => cases hkept
    | false =>
      obtain ⟨-, -, hcopied⟩ := hcopy.copied a o ha ho hkept
      rw [hg, writtenOf_some hcopied] at hcell
      exact .inl (plain_of_written hkept (hpart.kind ha ho) hp hcell)
  have hwalk : g a = f a ∧ Reach (edgesOf (writtenOf heap)) u a := by
    induction ha with
    | root heq =>
      have hstart := h.start
      rw [heq, Value.map_ref, Value.map_ref] at hstart
      exact ⟨(Value.ref.inj hstart).symm, .root heq⟩
    | @step a c ha hmem ih =>
      obtain ⟨o, ho⟩ := hpart.get ha
      rw [walkEdges_some ho] at hmem
      obtain ⟨hg, hreach⟩ := ih
      rcases hkind ha hreach hg ho with hplain | ⟨leaf, rfl⟩ | ⟨_, _, _, rfl⟩
      · -- The copy holds the stand-ins, so the renaming goes to them.
        obtain ⟨p, hp, hcell⟩ := h.node a hreach
        have hp' := hp
        rw [writtenOf_some ho] at hp
        rw [hg, hcopy.written_plain hpart ha ho hplain, hp, Option.map_some, Option.some_inj] at hcell
        have hlists : p.children.map (Value.map f) = p.children.map (Value.map g) := by
          rw [← JsObject.children_mapValues, hcell]
          exact JsObject.children_mapValues (Value.map g) p
        have hchild : Value.ref c ∈ p.children := by
          rw [walked_of_plain hplain] at hmem
          cases o with
          | record _ _ => cases hp; exact hmem
          | array _ _ => cases hp; exact hmem
          | map _ => cases hp; exact hmem
          | set _ => cases hp; exact hmem
          | _ => exact hplain.elim
        refine ⟨(Value.ref.inj (List.map_inj_left.mp hlists _ hchild)).symm, hreach.step ?_⟩
        rw [edgesOf_some hp']
        exact hchild
      · exact absurd hmem List.not_mem_nil
      · exact absurd hmem List.not_mem_nil
  exact ⟨hwalk.1, hwalk.2, fun o ho => hkind ha hwalk.2 hwalk.1 ho⟩

/-- **When the serializer writes the copy of a part as it writes the part.** -/
theorem sameGraph_copy_iff (hcopy : PartCopy heap u heap' f) (hpart : Hostless heap u)
    (hacc : Accepted (fun a => heap[a]?) u) :
    SameGraph (writtenOf heap) (writtenOf heap') u (u.map f) ↔ RebuiltAlike heap u := by
  have hlt : ∀ {a c}, Walk heap u a → Reach (edgesOf (writtenOf heap)) (.ref a) c →
      c < heap.length := by
    intro a c ha hc
    obtain ⟨o, ho⟩ := hpart.get ha
    refine written_lt hpart.wf (fun b hb => ?_) hc
    cases hb
    exact (List.getElem?_eq_some_iff.mp ho).1
  constructor
  · rintro ⟨g, h⟩
    refine ⟨fun a o ha ho => (alike_of_embeds hcopy hpart h ha).2.2 o ho,
      fun a name message cause c o ha ho hc hwalk hoc => ?_⟩
    -- The renaming leaves everything an error holds in its place.
    have hfix : g c = c ∧ Reach (edgesOf (writtenOf heap)) u c := by
      obtain ⟨hg, hreach, -⟩ := alike_of_embeds hcopy hpart h ha
      rw [(hcopy.kept_cell ha ho rfl).1] at hg
      clear hwalk hoc
      induction hc with
      | root heq =>
        cases heq
        exact ⟨hg, hreach⟩
      | @step b c hb hmem ih =>
        obtain ⟨hgb, hub⟩ := ih
        obtain ⟨p, hp, hcell⟩ := h.node b hub
        rw [hgb, hcopy.written_old (hlt ha hb), hp, Option.some_inj] at hcell
        have hlists : p.children = p.children.map (Value.map g) := by
          rw [← JsObject.children_mapValues]
          exact congrArg JsObject.children hcell
        refine ⟨?_, hub.step hmem⟩
        rw [edgesOf_some hp] at hmem
        have hsame := List.map_inj_left.mp ((List.map_id _).trans hlists) _ hmem
        exact (Value.ref.inj hsame).symm
    by_contra hkept
    obtain ⟨hge, -, -⟩ := hcopy.copied c o hwalk hoc (by simpa using hkept)
    have hgf := (alike_of_embeds hcopy hpart h hwalk).1
    have hclt := hlt ha hc
    omega
  · intro halike
    classical
    set g : Nat → Nat := fun a => if Walk heap u a then f a else a with hg
    have hwalk : ∀ {a}, Walk heap u a → g a = f a := fun ha => if_pos ha
    -- What an error holds stays in its place.
    have hfix : ∀ {a name message cause c}, Walk heap u a →
        heap[a]? = some (.error name message cause) →
        Reach (edgesOf (writtenOf heap)) (.ref a) c → g c = c := by
      intro a name message cause c ha ho hc
      by_cases hcw : Walk heap u c
      · obtain ⟨o, hoc⟩ := hpart.get hcw
        rw [hwalk hcw]
        exact hcopy.kept c o hcw hoc (halike.apart a _ _ _ c o ha ho hc hcw hoc)
      · exact if_neg hcw
    have hcases : ∀ {b}, Reach (edgesOf (writtenOf heap)) u b → Walk heap u b ∨
        ∃ a name message cause, Walk heap u a ∧ heap[a]? = some (.error name message cause) ∧
          Reach (edgesOf (writtenOf heap)) (.ref a) b := by
      intro b hb
      induction hb with
      | root heq => exact .inl (.root heq)
      | @step b c hb hmem ih =>
        rcases ih with ha | ⟨a, name, message, cause, ha, ho, hreach⟩
        · obtain ⟨o, ho⟩ := hpart.get ha
          rcases halike.plain b o ha ho with hplain | ⟨leaf, rfl⟩ | ⟨name, message, cause, rfl⟩
          · left
            refine walk_walked ha ho ?_
            rw [walked_of_plain hplain]
            obtain ⟨p, hp, -⟩ := hacc.node b hb
            rw [edgesOf_some hp] at hmem
            exact children_written ((writtenOf_some ho).symm.trans hp) hmem
          · rw [edgesOf_some (writtenOf_some ho)] at hmem
            exact absurd hmem List.not_mem_nil
          · exact .inr ⟨b, name, message, cause, ha, ho, (Reach.root rfl).step hmem⟩
        · exact .inr ⟨a, name, message, cause, ha, ho, hreach.step hmem⟩
    have hblt : ∀ {b}, Reach (edgesOf (writtenOf heap)) u b → b < heap.length :=
      fun hb => written_lt hpart.wf hpart.inHeap hb
    refine ⟨g, ?_, fun b hb => ?_, fun b c hb hc heq => ?_⟩
    · exact Value.map_congr fun a ha => (hwalk (.root ha)).symm
    · obtain ⟨p, hp, -⟩ := hacc.node b hb
      refine ⟨p, hp, ?_⟩
      show writtenOf heap' (g b) = some (p.mapValues (Value.map g))
      -- An object in its place, whose values are in theirs.
      have hold : g b = b → (∀ c, .ref c ∈ p.children → g c = c) →
          writtenOf heap' (g b) = some (p.mapValues (Value.map g)) := by
        intro hgb hchildren
        rw [hgb, hcopy.written_old (hblt hb), JsObject.mapValues_eq_self hchildren]
        exact hp
      have hedge : ∀ c, .ref c ∈ p.children → .ref c ∈ edgesOf (writtenOf heap) b := by
        intro c hc
        rw [edgesOf_some hp]
        exact hc
      rcases hcases hb with ha | ⟨a, name, message, cause, ha, ho, hreach⟩
      · obtain ⟨o, ho⟩ := hpart.get ha
        rcases halike.plain b o ha ho with hplain | ⟨leaf, rfl⟩ | ⟨name, message, cause, rfl⟩
        · have hwritten : o.written = some p := (writtenOf_some ho).symm.trans hp
          rw [hwalk ha, hcopy.written_plain hpart ha ho hplain, hwritten, Option.map_some]
          refine congrArg some (JsObject.mapValues_congr fun v hv => Value.map_congr fun c hc => ?_)
          refine (hwalk (walk_walked ha ho ?_)).symm
          rw [walked_of_plain hplain, ← hc]
          exact children_written hwritten hv
        · refine hold ?_ fun c hc => ?_
          · rw [hwalk ha]
            exact hcopy.kept b _ ha ho rfl
          · cases (writtenOf_some ho).symm.trans hp
            exact absurd hc List.not_mem_nil
        · exact hold (hfix ha ho (.root rfl)) fun c hc =>
            hfix ha ho ((Reach.root rfl).step (hedge c hc))
      · exact hold (hfix ha ho hreach) fun c hc => hfix ha ho (hreach.step (hedge c hc))
    · -- A copy stands behind the heap, and everything else in its place.
      have hplace : ∀ {b}, Reach (edgesOf (writtenOf heap)) u b →
          (Walk heap u b ∧ heap.length ≤ g b) ∨ g b = b := by
        intro b hb
        by_cases hbw : Walk heap u b
        · obtain ⟨o, ho⟩ := hpart.get hbw
          rw [hwalk hbw]
          cases hkept : o.isKept with
          | true => exact .inr (hcopy.kept b o hbw ho hkept)
          | false => exact .inl ⟨hbw, (hcopy.copied b o hbw ho hkept).1⟩
        · exact .inr (if_neg hbw)
      have hb' := hblt hb
      have hc' := hblt hc
      rcases hplace hb with ⟨hbw, hbge⟩ | hbself
      · rcases hplace hc with ⟨hcw, -⟩ | hcself
        · rw [hwalk hbw, hwalk hcw] at heq
          exact hcopy.inj b c hbw hcw heq
        · omega
      · rcases hplace hc with ⟨-, hcge⟩ | hcself
        · omega
        · omega

end Part

end Iso4
