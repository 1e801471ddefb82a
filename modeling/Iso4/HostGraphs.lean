/-
Host values keep their graph on their way into the sandbox.

A host graph is copied by the pre-pass, cloned by the serializer and walked in the sandbox; each
step renames the objects.  In the copy and in the clone an instance is a stamped object, whose
header list and bytes stand apart from the graph; the walk puts a sandbox instance in its place.

* `sent_untouched`, `sent_copied` — what the sandbox receives, without and with a copy;
* `host_values_keep_graph` — what it has after the walk.
-/
import Iso4.HostFields

namespace Iso4

open Graph Js

/-! ### Host graphs -/

/-- What a value reaches, through everything its objects hold. -/
abbrev Reached (heap : List (JsObject JsValue)) (v : JsValue) : Nat → Prop :=
  Reach (edgesOf fun a => heap[a]?) v

/-- The values of a host graph: plain objects, dense arrays, Maps, Sets, native leaves and instances
of host types, none with the brand key, in any arrangement. -/
structure HostGraph (brandKey : String) (heap : List (JsObject JsValue)) (v : JsValue) : Prop where
  wf : WfHeap heap
  inHeap : InHeap heap v
  kinds : ∀ a o, Reached heap v a → heap[a]? = some o → GraphObject brandKey o

theorem edgesOf_get {heap : List (JsObject JsValue)} {a : Nat} {o : JsObject JsValue}
    (h : heap[a]? = some o) : edgesOf (fun a => heap[a]?) a = o.children := by
  rw [edgesOf, h]
  rfl

/-- What is walked through is reached. -/
theorem reached_of_walk {heap : List (JsObject JsValue)} {v : JsValue} {a : Nat}
    (h : Walk heap v a) : Reached heap v a := by
  refine h.mono fun b _ c hc => ?_
  cases ho : heap[b]? with
  | none =>
    rw [walkEdges, ho] at hc
    exact absurd hc List.not_mem_nil
  | some o =>
    rw [walkEdges_some ho] at hc
    rw [edgesOf_get ho]
    exact ref_mem_children hc

section Graphs

variable {brandKey : String} {heap0 : List (JsObject JsValue)} {v0 : JsValue}

/-- In a host graph everything is walked through. -/
theorem HostGraph.walk_iff (h : HostGraph brandKey heap0 v0) {a : Nat} :
    Walk heap0 v0 a ↔ Reached heap0 v0 a := by
  refine ⟨reached_of_walk, fun hreached => hreached.mono fun b hb c hc => ?_⟩
  cases ho : heap0[b]? with
  | none =>
    rw [edgesOf, ho] at hc
    exact absurd hc List.not_mem_nil
  | some o =>
    rw [edgesOf_get ho] at hc
    rw [walkEdges_some ho]
    rcases h.kinds b o hb ho with ⟨i, rfl⟩ | ⟨hreceivable, -⟩
    · exact absurd hc List.not_mem_nil
    · rwa [walked_of_receivable hreceivable]

theorem HostGraph.kind (h : HostGraph brandKey heap0 v0) {a : Nat} {o : JsObject JsValue}
    (ha : Walk heap0 v0 a) (ho : heap0[a]? = some o) : GraphObject brandKey o :=
  h.kinds a o (reached_of_walk ha) ho

theorem HostGraph.get (h : HostGraph brandKey heap0 v0) {a : Nat} (ha : Walk heap0 v0 a) :
    ∃ o, heap0[a]? = some o := by
  have hlt : a < heap0.length := by
    cases ha with
    | root heq => exact h.inHeap a heq
    | @step b _ hb hmem =>
      cases ho : heap0[b]? with
      | none =>
        rw [walkEdges, ho] at hmem
        exact absurd hmem List.not_mem_nil
      | some o =>
        rw [walkEdges_some ho] at hmem
        exact h.wf.closed b o ho a (ref_mem_children hmem)
  exact ⟨heap0[a], List.getElem?_eq_getElem hlt⟩

/-- What the serializer writes of an object that can be received. -/
theorem written_receivable {o : JsObject JsValue} (h : o.Receivable) :
    o.written = some o.flattened := by
  cases o with
  | record _ _ => rfl
  | array _ _ => rfl
  | map _ => rfl
  | set _ => rfl
  | native _ => rfl
  | _ => exact h.elim

theorem flattened_mapValues {V W : Type} (f : V → W) (o : JsObject V) :
    (o.mapValues f).flattened = o.flattened.mapValues f := by
  cases o with
  | refused _ view => cases view <;> rfl
  | _ => rfl

/-! ### A value without instances -/

/-- A value that is left as it is reaches the sandbox as its clone. -/
theorem sent_untouched (hgraph : HostGraph brandKey heap0 v0)
    (hfree : ∀ a i, Walk heap0 v0 a → heap0[a]? ≠ some (.host i)) (running : Bool)
    (content : HostInstance → List String → MaterializedBody → Prop)
    {heap2 : List (JsObject JsValue)} {v2 : JsValue} {π : Nat → Nat}
    (hclone : Graph.Embeds (writtenHeap fun a => heap0[a]?) (fun a => heap2[a]?) v0 v2 π) :
    Sent brandKey running content heap0 v0 π heap2 := by
  have hreceivable : ∀ {a o}, Walk heap0 v0 a → heap0[a]? = some o → o.Receivable := by
    intro a o ha ho
    rcases hgraph.kind ha ho with ⟨i, rfl⟩ | ⟨h, -⟩
    · exact absurd ho (hfree a i ha)
    · exact h
  have hwritten : ∀ {a o}, Walk heap0 v0 a → heap0[a]? = some o →
      writtenHeap (fun a => heap0[a]?) a = some o.flattened := by
    intro a o ha ho
    rw [writtenHeap, ho]
    exact written_receivable (hreceivable ha ho)
  have hreach : ∀ {a}, Walk heap0 v0 a →
      Reach (edgesOf (writtenHeap fun a => heap0[a]?)) v0 a := by
    intro a ha
    refine ha.mono fun b hb c hc => ?_
    obtain ⟨o, ho⟩ := hgraph.get hb
    rw [edgesOf_some (hwritten hb ho)]
    rw [walkEdges_some ho, walked_of_receivable (hreceivable hb ho)] at hc
    show Value.ref c ∈ o.flattened.children
    rwa [(flattened_receivable (hreceivable hb ho)).2.1]
  refine ⟨hgraph.wf, hgraph.inHeap, fun a o ha ho => hgraph.kind ha ho,
    fun a b ha hb => hclone.inj a b (hreach ha) (hreach hb), fun a o ha ho _ => ?_,
    fun a i ha hi => absurd hi (hfree a i ha)⟩
  obtain ⟨p, hp, hcell⟩ := hclone.node a (hreach ha)
  rw [hwritten ha ho] at hp
  cases hp
  exact hcell

/-! ### A copied value -/

/-- Different objects have different stand-ins. -/
theorem image_inj {st : Copying} (hinv : CopyInv heap0 st) {a b : Nat} (ha : a < heap0.length)
    (hb : b < heap0.length) (heq : image st.seen a = image st.seen b) : a = b := by
  have hcases : ∀ a, (∃ x, st.seen a = some x ∧ image st.seen a = x ∧ heap0.length ≤ x) ∨
      image st.seen a = a := by
    intro a
    unfold image
    cases hseen : st.seen a with
    | none => exact .inr rfl
    | some x => exact .inl ⟨x, rfl, rfl, (hinv.cell a x hseen).1⟩
  rcases hcases a with ⟨x, hax, haimage, hxge⟩ | haself
  · rcases hcases b with ⟨y, hby, hbimage, -⟩ | hbself
    · rw [haimage, hbimage] at heq
      exact hinv.inj a b x hax (heq ▸ hby)
    · rw [haimage, hbself] at heq
      omega
  · rcases hcases b with ⟨y, -, hbimage, hyge⟩ | hbself
    · rw [haself, hbimage] at heq
      omega
    · rw [haself, hbself] at heq
      exact heq

/-- A cell of a descriptor is the stand-in of no object. -/
theorem OwnCell.ne_image {st : Copying} {c : Nat} (h : OwnCell heap0 st c) {a : Nat}
    (ha : a < heap0.length) : image st.seen a ≠ c := by
  unfold image
  cases hseen : st.seen a with
  | none =>
    have hge := h.1
    rw [Option.getD_none]
    omega
  | some x =>
    rintro rfl
    exact h.2.2 a hseen

section Copied

variable {streams : Option StreamSourceRegistry} {st : Copying}

theorem HostGraph.lt (h : HostGraph brandKey heap0 v0) {a : Nat} (ha : Walk heap0 v0 a) :
    a < heap0.length := by
  obtain ⟨o, ho⟩ := h.get ha
  exact (List.getElem?_eq_some_iff.mp ho).1

/-- The copy of an object holds the stand-ins of its values. -/
theorem written_copy (hgraph : HostGraph brandKey heap0 v0)
    (hwhole : WholeCopy brandKey heap0 v0 streams st) {a : Nat} {o : JsObject JsValue}
    (ha : Walk heap0 v0 a) (ho : heap0[a]? = some o) (hreceivable : o.Receivable) :
    writtenHeap (fun a => st.heap[a]?) (image st.seen a) =
      some (o.flattened.mapValues (Value.map (image st.seen))) := by
  rcases hwhole.covered a ha with ⟨b, hb⟩ | hkept
  · obtain ⟨⟨b', o', hseen, ho', hcopy⟩, -⟩ := hwhole.finished a b hb
    rw [hb] at hseen
    rw [ho] at ho'
    cases hseen
    cases ho'
    rcases hcopy with ⟨i, rfl, -⟩ | ⟨-, -, hcell, -⟩
    · exact hreceivable.elim
    · have hplain : o.Plain := by
        obtain ⟨p, hp, hnot⟩ := hwhole.inv.source a b hb
        rw [ho] at hp
        cases hp
        cases o with
        | native _ => cases hnot
        | _ => exact hreceivable
      have himage : image st.seen a = b := by
        rw [image, hb]
        rfl
      have hinj : ∀ c d, .ref c ∈ o.children → .ref d ∈ o.children →
          image st.seen c = image st.seen d → c = d := fun c d hc hd =>
        image_inj hwhole.inv (hgraph.lt (walk_child ha ho hreceivable hc))
          (hgraph.lt (walk_child ha ho hreceivable hd))
      rw [himage, writtenHeap, hcell, Option.bind_some,
        written_rebuilt hplain (hgraph.wf.wf a o ho) hinj, written_receivable hreceivable]
      rfl
  · -- What is left as it is stands for itself.
    have hnone : st.seen a = none := by
      cases hseen : st.seen a with
      | none => rfl
      | some b =>
        obtain ⟨p, hp, hnot⟩ := hwhole.inv.source a b hseen
        rw [hkept p hp] at hnot
        cases hnot
    have himage : image st.seen a = a := by
      rw [image, hnone]
      rfl
    rw [himage, writtenHeap, hwhole.inv.old a (hgraph.lt ha), ho, Option.bind_some]
    cases o with
    | native _ => rfl
    | error _ _ _ => exact hreceivable.elim
    | refused _ _ => exact hreceivable.elim
    | _ => cases hkept _ ho

/-- The copy of an instance is its stamped object. -/
theorem stamp_copy (hwhole : WholeCopy brandKey heap0 v0 streams st) {a : Nat} {i : HostInstance}
    (ha : Walk heap0 v0 a) (hi : heap0[a]? = some (.host i)) :
    Described brandKey heap0 st (image st.seen a) i := by
  rcases hwhole.covered a ha with ⟨b, hb⟩ | hkept
  · obtain ⟨⟨b', o', hseen, ho', hcopy⟩, -⟩ := hwhole.finished a b hb
    rw [hb] at hseen
    rw [hi] at ho'
    cases hseen
    cases ho'
    have himage : image st.seen a = b := by
      rw [image, hb]
      rfl
    rcases hcopy with ⟨j, hj, hdescribed⟩ | ⟨hnot, -⟩
    · cases hj
      rwa [himage]
    · exact absurd rfl (hnot i)
  · cases hkept _ hi

/-- What is reached in a host graph has its copy reached in the copied one. -/
theorem reach_copy (hgraph : HostGraph brandKey heap0 v0)
    (hwhole : WholeCopy brandKey heap0 v0 streams st) {a : Nat} (ha : Walk heap0 v0 a) :
    Reach (edgesOf (writtenHeap fun a => st.heap[a]?)) (v0.map (image st.seen)) (image st.seen a) := by
  induction ha with
  | root heq => exact .root (by rw [heq]; rfl)
  | @step a c ha hmem ih =>
    obtain ⟨o, ho⟩ := hgraph.get ha
    rw [walkEdges_some ho] at hmem
    rcases hgraph.kind ha ho with ⟨i, rfl⟩ | ⟨hreceivable, -⟩
    · exact absurd hmem List.not_mem_nil
    · refine ih.step ?_
      rw [edgesOf_some (written_copy hgraph hwhole ha ho hreceivable)]
      show Value.ref (image st.seen c) ∈ (o.flattened.mapValues (Value.map (image st.seen))).children
      rw [JsObject.children_mapValues, (flattened_receivable hreceivable).2.1]
      rw [walked_of_receivable hreceivable] at hmem
      exact List.mem_map.mpr ⟨.ref c, hmem, rfl⟩

/-- A clone of a stamped object is one. -/
theorem StampAt.clone {heap heap2 : List (JsObject JsValue)} {own : Nat → Prop} {b : Nat}
    {i : HostInstance} {headers : List String} {body : MaterializedBody} {list : Nat}
    {props : List (String × JsValue)} {root root' : JsValue} {π : Nat → Nat}
    (h : StampAt brandKey heap own b i headers body list props)
    (hclone : Graph.Embeds (writtenHeap fun a => heap[a]?) (fun a => heap2[a]?) root root' π)
    (hb : Reach (edgesOf (writtenHeap fun a => heap[a]?)) root b) :
    StampAt brandKey heap2
      (fun d => ∃ c, own c ∧ Reach (edgesOf (writtenHeap fun a => heap[a]?)) root c ∧ d = π c)
      (π b) i headers body (π list) (mapProps (Value.map π) props) := by
  have hcell : ∀ {c : Nat} {o p : JsObject JsValue},
      Reach (edgesOf (writtenHeap fun a => heap[a]?)) root c → heap[c]? = some o →
      o.written = some p → heap2[π c]? = some (p.mapValues (Value.map π)) := by
    intro c o p hc ho hp
    obtain ⟨q, hq, hcell⟩ := hclone.node c hc
    rw [writtenHeap, ho, Option.bind_some, hp] at hq
    cases hq
    exact hcell
  have hedge : ∀ {c : Nat}, Value.ref c ∈ ((brandKey, Value.prim (.int i.fields.1)) ::
      (i.fields.2 ++ ("headers", Value.ref list) :: props)).map Prod.snd →
      Reach (edgesOf (writtenHeap fun a => heap[a]?)) root c := by
    intro c hc
    refine hb.step ?_
    rw [edgesOf, writtenHeap, h.atCell]
    exact hc
  have hlist := hedge (c := list) (by simp)
  refine ⟨?_, ?_, ⟨list, h.ownList, hlist, rfl⟩, ?_⟩
  · rw [hcell hb h.atCell rfl]
    cases i <;> rfl
  · rw [hcell hlist h.atList rfl]
    simp [JsObject.mapValues, mapProps, Function.comp_def, str]
  · cases body with
    | null =>
      rw [show props = _ from h.atBody]
      rfl
    | bytes data =>
      obtain ⟨c, hprops, hown, hbytes⟩ := h.atBody
      have hc := hedge (c := c) (by simp [hprops])
      exact ⟨π c, by rw [hprops]; rfl, ⟨c, hown, hc, rfl⟩, hcell hc hbytes rfl⟩
    | stream id =>
      rw [show props = _ from h.atBody]
      rfl

/-- **A copied value reaches the sandbox as the clone of its copy.** -/
theorem sent_copied (hgraph : HostGraph brandKey heap0 v0)
    (hwhole : WholeCopy brandKey heap0 v0 streams st) {running : Bool}
    (hrunning : st.streams.isSome = true → running = true)
    (hids : ∀ s, st.streams = some s → s.nextId ≤ 2 ^ 32)
    {heap2 : List (JsObject JsValue)} {v2 : JsValue} {π : Nat → Nat}
    (hclone : Graph.Embeds (writtenHeap fun a => st.heap[a]?) (fun a => heap2[a]?)
      (v0.map (image st.seen)) v2 π) :
    Sent brandKey running (Content st.streams) heap0 v0 (π ∘ image st.seen) heap2 := by
  have hreach := fun {a} (ha : Walk heap0 v0 a) => reach_copy hgraph hwhole ha
  refine ⟨hgraph.wf, hgraph.inHeap, fun a o ha ho => hgraph.kind ha ho, fun a b ha hb heq => ?_,
    fun a o ha ho hreceivable => ?_, fun a i ha hi => ?_⟩
  · exact image_inj hwhole.inv (hgraph.lt ha) (hgraph.lt hb)
      (hclone.inj _ _ (hreach ha) (hreach hb) heq)
  · obtain ⟨p, hp, hcell⟩ := hclone.node _ (hreach ha)
    rw [written_copy hgraph hwhole ha ho hreceivable] at hp
    cases hp
    refine hcell.trans (congrArg some ?_)
    show ((o.flattened.mapValues _).mapValues _) = _
    rw [JsObject.mapValues_mapValues]
    exact JsObject.mapValues_congr fun v _ => Value.map_map _ _ v
  · obtain ⟨headers, body, list, props, hstamp, hcontent⟩ := stamp_copy hwhole ha hi
    refine ⟨headers, body, π list, mapProps (Value.map π) props,
      (hstamp.clone hclone (hreach ha)).mono rfl fun d hd => ⟨?_, rfl⟩, hcontent,
      (hcontent.fits hrunning hids).1⟩
    obtain ⟨c, hown, hc, rfl⟩ := hd
    intro b hb heq
    exact hown.ne_image (hgraph.lt hb) (hclone.inj _ _ (hreach hb) hc heq)

/-! ### The serializer accepts it -/

/-- No function or symbol is reached. -/
structure NoBehaviour (heap : List (JsObject JsValue)) (v : JsValue) : Prop where
  start : v ≠ .prim .behaviour
  node : ∀ a o, Reached heap v a → heap[a]? = some o → Value.prim Prim.behaviour ∉ o.children

theorem accepted_untouched (hgraph : HostGraph brandKey heap0 v0)
    (hdata : NoBehaviour heap0 v0) : Accepted (fun a => heap0[a]?) v0 := by
  have hedges : ∀ (o p : JsObject JsValue), o.written = some p → ∀ u ∈ p.children, u ∈ o.children := by
    intro o p hp u hu
    cases o with
    | boxed _ _ => cases hp; exact absurd hu List.not_mem_nil
    | host _ => cases hp; exact absurd hu List.not_mem_nil
    | record _ _ => cases hp; exact hu
    | array _ _ => cases hp; exact hu
    | map _ => cases hp; exact hu
    | set _ => cases hp; exact hu
    | native _ => cases hp; exact hu
    | error _ _ _ => cases hp; exact hu
    | _ => cases hp
  have hreached : ∀ {a}, Reach (edgesOf (writtenHeap fun a => heap0[a]?)) v0 a →
      Reached heap0 v0 a := by
    intro a ha
    refine ha.mono fun b _ c hc => ?_
    cases ho : heap0[b]? with
    | none =>
      rw [edgesOf, writtenHeap, ho] at hc
      exact absurd hc List.not_mem_nil
    | some o =>
      rw [edgesOf_get ho]
      cases hp : o.written with
      | none =>
        rw [edgesOf, writtenHeap, ho, Option.bind_some, hp] at hc
        exact absurd hc List.not_mem_nil
      | some p =>
        have hwritten : writtenHeap (fun a => heap0[a]?) b = some p := by
          rw [writtenHeap, ho, Option.bind_some, hp]
        rw [edgesOf_some hwritten] at hc
        exact hedges o p hp _ hc
  refine ⟨hdata.start, fun a ha => ?_⟩
  obtain ⟨o, ho⟩ := hgraph.get (hgraph.walk_iff.mpr (hreached ha))
  have hwritten : ∃ p, o.written = some p := by
    rcases hgraph.kinds a o (hreached ha) ho with ⟨i, rfl⟩ | ⟨hreceivable, -⟩
    · exact ⟨_, rfl⟩
    · exact ⟨_, written_receivable hreceivable⟩
  obtain ⟨p, hp⟩ := hwritten
  refine ⟨p, by rw [writtenHeap, ho, Option.bind_some, hp], fun hmem => ?_⟩
  exact hdata.node a o (hreached ha) ho (hedges o p hp _ hmem)

/-- The cells of the copy of a host graph: the stand-ins of its objects, and the header lists and
bytes of its descriptors, which hold no references. -/
def CopyCell (heap0 : List (JsObject JsValue)) (v0 : JsValue) (st : Copying) (b : Nat) : Prop :=
  (∃ a, Walk heap0 v0 a ∧ b = image st.seen a) ∨
    ∃ o : JsObject JsValue, writtenHeap (fun a => st.heap[a]?) b = some o ∧
      ∀ u ∈ o.children, ∃ s, u = str s

/-- The values of a stamped object are strings, numbers, `null` and cells of its own. -/
theorem StampAt.values {own : Nat → Prop} {b : Nat} {i : HostInstance} {headers : List String}
    {body : MaterializedBody} {list : Nat} {props : List (String × JsValue)}
    (h : StampAt brandKey st.heap own b i headers body list props) {u : JsValue}
    (hu : u ∈ ((brandKey, Value.prim (.int i.fields.1)) ::
      (i.fields.2 ++ ("headers", Value.ref list) :: props)).map Prod.snd) :
    u ≠ .prim .behaviour ∧ ∀ c, u = .ref c → CopyCell heap0 v0 st c := by
  have hbody : ∀ u ∈ props.map Prod.snd,
      u ≠ .prim .behaviour ∧ ∀ c, u = .ref c → CopyCell heap0 v0 st c := by
    intro u hu
    cases body with
    | null =>
      rw [show props = _ from h.atBody] at hu
      obtain rfl := List.mem_singleton.mp hu
      exact ⟨by simp, by simp⟩
    | bytes data =>
      obtain ⟨c, hprops, -, hbytes⟩ := h.atBody
      rw [hprops] at hu
      obtain rfl := List.mem_singleton.mp hu
      refine ⟨by simp, fun d hd => ?_⟩
      cases hd
      refine .inr ⟨.native (.buffer .uint8Array data), by rw [writtenHeap, hbytes]; rfl, fun u hu => ?_⟩
      exact absurd hu List.not_mem_nil
    | stream id =>
      rw [show props = _ from h.atBody] at hu
      simp only [List.map_cons, List.map_nil, List.mem_cons, List.not_mem_nil, or_false] at hu
      rcases hu with rfl | rfl
      · exact ⟨by simp, by simp⟩
      · exact ⟨by simp [Prim.int], by simp⟩
  have hfields : ∀ u ∈ i.fields.2.map Prod.snd, ∃ p, u = .prim p ∧ p ≠ .behaviour := by
    intro u hu
    cases i with
    | headers entries => exact absurd hu List.not_mem_nil
    | request url method entries source =>
      simp only [HostInstance.fields, List.map_cons, List.map_nil, List.mem_cons, List.not_mem_nil,
        or_false] at hu
      rcases hu with rfl | rfl
      · exact ⟨_, rfl, by simp⟩
      · exact ⟨_, rfl, by simp⟩
    | response status statusText entries source =>
      simp only [HostInstance.fields, List.map_cons, List.map_nil, List.mem_cons, List.not_mem_nil,
        or_false] at hu
      rcases hu with rfl | rfl
      · exact ⟨_, rfl, by simp [Prim.int]⟩
      · exact ⟨_, rfl, by simp⟩
  rw [List.map_cons, List.map_append, List.map_cons, List.mem_cons, List.mem_append,
    List.mem_cons] at hu
  rcases hu with rfl | hu | rfl | hu
  · exact ⟨by simp [Prim.int], by simp⟩
  · obtain ⟨p, rfl, hp⟩ := hfields u hu
    exact ⟨fun heq => hp (Value.prim.inj heq), by simp⟩
  · refine ⟨by simp, fun c hc => ?_⟩
    cases hc
    refine .inr ⟨_, by rw [writtenHeap, h.atList]; rfl, fun u hu => ?_⟩
    have hmem : u ∈ (headers.map fun s => some (str s)).filterMap id ++ [] := hu
    simp only [List.append_nil, List.mem_filterMap, List.mem_map, id] at hmem
    obtain ⟨_, ⟨s, -, rfl⟩, heq⟩ := hmem
    exact ⟨s, (Option.some.inj heq).symm⟩
  · exact hbody u hu

/-- **The serializer accepts the copy** of a host graph without functions and symbols. -/
theorem accepted_copied (hgraph : HostGraph brandKey heap0 v0) (hdata : NoBehaviour heap0 v0)
    (hwhole : WholeCopy brandKey heap0 v0 streams st) :
    Accepted (fun a => st.heap[a]?) (v0.map (image st.seen)) := by
  -- The values of a cell are no functions, and its references are cells.
  have hcell : ∀ b, CopyCell heap0 v0 st b → ∃ o, writtenHeap (fun a => st.heap[a]?) b = some o ∧
      ∀ u ∈ o.children, u ≠ .prim .behaviour ∧ ∀ c, u = .ref c → CopyCell heap0 v0 st c := by
    rintro b (⟨a, ha, rfl⟩ | ⟨o, ho, hstrings⟩)
    · obtain ⟨o, ho⟩ := hgraph.get ha
      rcases hgraph.kind ha ho with ⟨i, rfl⟩ | ⟨hreceivable, -⟩
      · obtain ⟨headers, body, list, props, hstamp, -⟩ := stamp_copy hwhole ha ho
        have hwritten : writtenHeap (fun a => st.heap[a]?) (image st.seen a) =
            some (.record true ((brandKey, .prim (.int i.fields.1)) ::
              (i.fields.2 ++ ("headers", .ref list) :: props))) := by
          rw [writtenHeap, hstamp.atCell]
          rfl
        exact ⟨_, hwritten, fun u hu => hstamp.values hu⟩
      · refine ⟨_, written_copy hgraph hwhole ha ho hreceivable, fun u hu => ?_⟩
        rw [JsObject.children_mapValues, (flattened_receivable hreceivable).2.1] at hu
        obtain ⟨v, hv, rfl⟩ := List.mem_map.mp hu
        cases v with
        | prim p =>
          refine ⟨fun heq => ?_, nofun⟩
          cases heq
          exact hdata.node a o (reached_of_walk ha) ho hv
        | ref c =>
          refine ⟨nofun, fun d hd => ?_⟩
          cases hd
          exact .inl ⟨c, walk_child ha ho hreceivable hv, rfl⟩
    · refine ⟨o, ho, fun u hu => ?_⟩
      obtain ⟨s, rfl⟩ := hstrings u hu
      exact ⟨nofun, nofun⟩
  have hreach : ∀ {b}, Reach (edgesOf (writtenHeap fun a => st.heap[a]?)) (v0.map (image st.seen)) b →
      CopyCell heap0 v0 st b := by
    intro b hb
    induction hb with
    | @root b heq =>
      cases hv : v0 with
      | prim p => rw [hv] at heq; cases heq
      | ref a =>
        rw [hv] at heq
        cases heq
        exact .inl ⟨a, .root rfl, rfl⟩
    | @step b c _ hmem ih =>
      obtain ⟨o, ho, hvalues⟩ := hcell b ih
      rw [edgesOf_some ho] at hmem
      exact (hvalues _ hmem).2 c rfl
  refine ⟨fun heq => ?_, fun b hb => ?_⟩
  · cases hv : v0 with
    | prim p =>
      rw [hv] at heq
      cases heq
      exact hdata.start hv
    | ref a => rw [hv] at heq; cases heq
  · obtain ⟨o, ho, hvalues⟩ := hcell b (hreach hb)
    exact ⟨o, ho, fun hmem => (hvalues _ hmem).1 rfl⟩

end Copied

/-- Of an accepted value there is a clone, which writes every object in its place. -/
theorem exists_clone {heap : List (JsObject JsValue)} {v : JsValue}
    (h : Accepted (fun a => heap[a]?) v) :
    ∃ (heap2 : List (JsObject JsValue)) (v2 : JsValue),
      IsClone (fun a => heap[a]?) v (fun a => heap2[a]?) v2 := by
  refine ⟨heap.map fun o => o.written.getD (.record true []), v, h, id, ?_, fun a ha => ?_,
    fun _ _ _ _ heq => heq⟩
  · exact (Value.map_eq_self fun _ _ => rfl).symm
  · obtain ⟨p, hp, -⟩ := h.node a ha
    refine ⟨p, hp, ?_⟩
    rw [writtenHeap, Option.bind_eq_some_iff] at hp
    obtain ⟨o, ho, hp⟩ := hp
    have hid : Shape.map (Value.map id) p = p :=
      (Shape.map_congr fun v _ => Value.map_eq_self fun _ _ => rfl).trans (Shape.map_id p)
    show (heap.map fun o => o.written.getD (.record true []))[a]? = some (Shape.map (Value.map id) p)
    rw [List.getElem?_map, ho, Option.map_some, hp, hid]
    rfl

/-! ### The whole way -/

/-- The sandbox's graph of a host graph: one object for each, of the same shape and holding the
same objects, and for each instance one sandbox instance with its fields. -/
structure SameHostGraph (streams : Option StreamSourceRegistry) (heap : List (JsObject JsValue))
    (v : JsValue) (heap' : List (JsObject JsValue)) (φ : Nat → Nat) : Prop where
  inj : ∀ a b, Reached heap v a → Reached heap v b → φ a = φ b → a = b
  object : ∀ a o, Reached heap v a → heap[a]? = some o → (∀ i, o ≠ .host i) →
    heap'[φ a]? = some (o.flattened.mapValues (Value.map φ))
  instance_ : ∀ a i, Reached heap v a → heap[a]? = some (.host i) →
    SameFields streams heap' (φ a) i

/-- What is delivered of a host graph is its graph. -/
theorem sameHostGraph_of_delivered (hgraph : HostGraph brandKey heap0 v0)
    {content : HostInstance → List String → MaterializedBody → Prop}
    {streams : Option StreamSourceRegistry} {heap' : List (JsObject JsValue)} {φ : Nat → Nat}
    (hcontent : ∀ i headers body, content i headers body →
      SameHeaders i.entries headers ∧ SameBody streams i.body body)
    (hinj : ∀ a b, Walk heap0 v0 a → Walk heap0 v0 b → φ a = φ b → a = b)
    (hdelivered : ∀ a o, Walk heap0 v0 a → heap0[a]? = some o → Delivered content heap' φ a o) :
    SameHostGraph streams heap0 v0 heap' φ where
  inj a b ha hb := hinj a b (hgraph.walk_iff.mpr ha) (hgraph.walk_iff.mpr hb)
  object a o ha ho hnot := by
    rcases hdelivered a o (hgraph.walk_iff.mpr ha) ho with ⟨i, rfl, -⟩ | ⟨-, hcell⟩
    · exact absurd rfl (hnot i)
    · exact hcell
  instance_ a i ha hi := by
    rcases hdelivered a _ (hgraph.walk_iff.mpr ha) hi with ⟨j, hj, hreceived⟩ | ⟨hfalse, -⟩
    · cases hj
      obtain ⟨headers, body, list, -, hinstance, hlist, hsame⟩ := hreceived
      obtain ⟨hheaders, hbody⟩ := hcontent i headers body hsame
      exact ⟨headers, body, list, hinstance, hlist, hheaders, hbody⟩
    · exact hfalse.elim

/-- **Host values keep their graph.**  The pre-pass stops at an instance that cannot be described,
or the sandbox has, after the walk over any clone of what it returns, the graph of the value.  Stream
ids are 32-bit on the wire. -/
theorem host_values_keep_graph (token : List UInt8) {heap : List (JsObject JsValue)} {v : JsValue}
    (hgraph : HostGraph (brandKeyForToken token) heap v) (streams : Option StreamSourceRegistry)
    (running : Bool) (hrunning : streams.isSome = true → running = true) :
    (∃ a i message before, Reached heap v a ∧ heap[a]? = some (.host i) ∧
      materializeHostTypes (brandKeyForToken token) heap v streams = .error (.thrown message) ∧
      before.isSome = streams.isSome ∧ describe i before = .error message) ∨
    ∃ w st, materializeHostTypes (brandKeyForToken token) heap v streams = .ok (w, st) ∧
      (NoBehaviour heap v → Accepted (fun a => st.heap[a]?) w) ∧
      ∀ heap2 v2, IsClone (fun a => st.heap[a]?) w (fun a => heap2[a]?) v2 →
        (∀ s, st.streams = some s → s.nextId ≤ 2 ^ 32) →
        ∃ φ out, rehydrate (brandKeyForToken token) running heap2 v2 = .ok (v.map φ, out) ∧
          SameHostGraph st.streams heap v out.heap φ := by
  have hkey := brandKey_ne token
  cases hhost : hasHostType heap v with
  | false =>
    have hfree : ∀ a i, Walk heap v a → heap[a]? ≠ some (.host i) := by
      intro a i ha hi
      have htrue := (hasHostType_iff hgraph.wf hgraph.inHeap).mpr ⟨a, _, ha, hi, rfl⟩
      rw [hhost] at htrue
      cases htrue
    refine .inr ⟨v, ⟨heap, fun _ => none, streams⟩, ?_, accepted_untouched hgraph, ?_⟩
    · rw [materializeHostTypes, hhost]
      rfl
    · rintro heap2 v2 ⟨-, π, hclone⟩ -
      have hsent := sent_untouched hgraph hfree running (fun _ _ _ => False) hclone
      obtain ⟨φ, out, hrehydrate, hinj, hdelivered⟩ := rehydrate_spec hkey hsent
      rw [← hclone.start] at hrehydrate
      exact ⟨φ, out, hrehydrate, sameHostGraph_of_delivered hgraph
        (fun _ _ _ hfalse => hfalse.elim) hinj hdelivered⟩
  | true =>
    have hunfold : materializeHostTypes (brandKeyForToken token) heap v streams =
        transform (brandKeyForToken token) (heap.length + 1) v ⟨heap, fun _ => none, streams⟩ := by
      rw [materializeHostTypes, hhost]
      rfl
    have hwhole := @transform_whole (brandKeyForToken token) heap hgraph.wf v hgraph.inHeap streams
    rw [hunfold]
    cases hcopy : transform (brandKeyForToken token) (heap.length + 1) v
        ⟨heap, fun _ => none, streams⟩ with
    | error halt =>
      rw [hcopy] at hwhole
      obtain ⟨a, o, message, ha, ho, rfl, hstops⟩ := hwhole
      rcases hstops with ⟨i, before, rfl, hleg, hdescribe⟩ | ⟨p, rfl, -⟩
      · exact .inl ⟨a, i, message, before, reached_of_walk ha, ho, rfl, hleg, hdescribe⟩
      · rcases hgraph.kind ha ho with ⟨i, hi⟩ | ⟨hfalse, -⟩
        · cases hi
        · exact hfalse.elim
    | ok result =>
      obtain ⟨w, st⟩ := result
      rw [hcopy] at hwhole
      obtain ⟨rfl, hwhole⟩ := hwhole
      refine .inr ⟨_, st, rfl, fun hdata => accepted_copied hgraph hdata hwhole, ?_⟩
      rintro heap2 v2 ⟨-, π, hclone⟩ hids
      have hrunning' : st.streams.isSome = true → running = true := fun h =>
        hrunning (hwhole.leg ▸ h)
      have hsent := sent_copied hgraph hwhole hrunning' hids hclone
      obtain ⟨φ, out, hrehydrate, hinj, hdelivered⟩ := rehydrate_spec hkey hsent
      rw [← Value.map_map, ← hclone.start] at hrehydrate
      exact ⟨φ, out, hrehydrate, sameHostGraph_of_delivered hgraph
        (fun i headers body hcontent => (hcontent.fits hrunning' hids).2) hinj hdelivered⟩

end Graphs

/-- A record that holds itself, a Map, and twice one instance: under a property and as a key. -/
def sharedHeap : List (JsObject JsValue) :=
  [.record true [("self", .ref 0), ("map", .ref 1), ("head", .ref 2)], .map [(.ref 2, .ref 0)],
    .host (.headers [("x-a", "1")])]

theorem sharedHeap_graph (brandKey : String) (h : brandKey ∉ ["self", "map", "head"]) :
    HostGraph brandKey sharedHeap (.ref 0) ∧ NoBehaviour sharedHeap (.ref 0) := by
  have hall : ∀ P : JsObject JsValue → Prop, (∀ o ∈ sharedHeap, P o) →
      ∀ (a : Nat) (o : JsObject JsValue), sharedHeap[a]? = some o → P o :=
    fun P hP a o ho => hP o (List.mem_of_getElem? ho)
  refine ⟨⟨⟨hall _ ?_, hall _ ?_⟩, ?_, fun a o _ => hall _ ?_ a o⟩, by simp,
    fun a o _ => hall (fun o => Value.prim Prim.behaviour ∉ o.children) ?_ a o⟩
  · simp [sharedHeap, JsObject.Wf]
  · simp [sharedHeap, JsObject.children]
  · rintro a heq
    cases heq
    decide
  · simp only [List.mem_cons, List.not_mem_nil, or_false, not_or] at h
    simp only [sharedHeap, List.forall_mem_cons, List.not_mem_nil, false_imp_iff, implies_true,
      and_true]
    refine ⟨.inr ⟨trivial, ?_⟩, .inr ⟨trivial, by simp⟩, .inl ⟨_, rfl⟩⟩
    rintro ordinary props heq prop hprop rfl
    cases heq
    simp only [List.mem_cons, List.not_mem_nil, or_false] at hprop
    rcases hprop with hprop | hprop | hprop
    · exact h.1 (congrArg Prod.fst hprop)
    · exact h.2.1 (congrArg Prod.fst hprop)
    · exact h.2.2 (congrArg Prod.fst hprop)
  · simp [sharedHeap, JsObject.children]

theorem host_values_keep_graph_shared :
    ∃ w st, ∃ heap2 : List (JsObject JsValue), ∃ v2 φ out,
      materializeHostTypes (brandKeyForToken [0xab]) sharedHeap (.ref 0) none = .ok (w, st) ∧
      IsClone (fun a => st.heap[a]?) w (fun a => heap2[a]?) v2 ∧
      rehydrate (brandKeyForToken [0xab]) false heap2 v2 = .ok (.ref (φ 0), out) ∧
      SameHostGraph st.streams sharedHeap (.ref 0) out.heap φ := by
  obtain ⟨hgraph, hdata⟩ := sharedHeap_graph (brandKeyForToken [0xab]) (by decide)
  have hrun : ((materializeHostTypes (brandKeyForToken [0xab]) sharedHeap (.ref 0) none).toOption.map
      fun result => result.2.streams.isNone) = some true := by decide
  rcases host_values_keep_graph [0xab] hgraph none false nofun with
    ⟨_, _, _, _, -, -, hthrown, -⟩ | ⟨w, st, hok, haccepted, hclones⟩
  · rw [hthrown] at hrun
    cases hrun
  · obtain ⟨heap2, v2, hclone⟩ := exists_clone (haccepted hdata)
    have hids : ∀ s, st.streams = some s → s.nextId ≤ 2 ^ 32 := by
      intro s hs
      rw [hok] at hrun
      simp [Except.toOption, hs] at hrun
    obtain ⟨φ, out, hrehydrate, hsame⟩ := hclones heap2 v2 hclone hids
    exact ⟨w, st, heap2, v2, φ, out, hok, hclone, hrehydrate, hsame⟩

end Iso4
