/-
A host type elsewhere in a value: the array of a value without host types and an instance.

The instance makes the pre-pass rebuild the value too.  What the serializer makes of the rebuilt
part is what it makes of the value alone exactly when the rebuilt objects are plain objects, dense
arrays, Maps and Sets that no error holds, and what is refused stays refused.

* `BesideUnchanged` — the instance changes nothing;
* `beside_unchanged_iff` — exactly when this is so;
* `sparse_beside` — a sparse array is changed.
-/
import Iso4.HostBeside

namespace Iso4

open Graph Js

/-! ### The array -/

/-- The heap of `[v, h]`, behind that of `v`. -/
def beside (heap : List (JsObject JsValue)) (v : JsValue) (i : HostInstance) :
    List (JsObject JsValue) :=
  heap ++ [.host i, .array [some v, some (.ref heap.length)] []]

/-- `[v, h]`. -/
def pairOf (heap : List (JsObject JsValue)) : JsValue := .ref (heap.length + 1)

/-- An instance beside a value changes nothing of it: the value alone is handed to the serializer
untouched, and its clone is the part of the clone beside the instance; and what the serializer
refuses it refuses in both. -/
structure BesideUnchanged (brandKey : String) (heap : List (JsObject JsValue)) (v : JsValue)
    (i : HostInstance) (streams : Option StreamSourceRegistry) : Prop where
  accepted : Accepted (fun a => heap[a]?) v →
    materializeHostTypes brandKey heap v streams = .ok (v, ⟨heap, fun _ => none, streams⟩) ∧
    ∃ w st, materializeHostTypes brandKey (beside heap v i) (pairOf heap) streams = .ok (w, st) ∧
      Accepted (fun a => st.heap[a]?) w ∧
      ∀ (heapA heapB : JsHeap) (wA vB : JsValue), IsClone (fun a => st.heap[a]?) w heapA wA →
        IsClone (fun a => heap[a]?) v heapB vB →
        ∃ r part rest, wA = .ref r ∧ heapA r = some (.array (some part :: rest) []) ∧
          SameGraph heapA heapB part vB
  refused : ¬Accepted (fun a => heap[a]?) v →
    (∀ w st, materializeHostTypes brandKey heap v streams = .ok (w, st) →
      ¬Accepted (fun a => st.heap[a]?) w) ∧
    ∀ w st, materializeHostTypes brandKey (beside heap v i) (pairOf heap) streams = .ok (w, st) →
      ¬Accepted (fun a => st.heap[a]?) w

section Beside

variable {brandKey : String} {heap : List (JsObject JsValue)} {v : JsValue} {i : HostInstance}
  {streams : Option StreamSourceRegistry}

theorem beside_old {a : Nat} (ha : a < heap.length) : (beside heap v i)[a]? = heap[a]? :=
  List.getElem?_append_left ha

theorem beside_host : (beside heap v i)[heap.length]? = some (.host i) := by
  simp [beside]

theorem beside_array : (beside heap v i)[heap.length + 1]? =
    some (.array [some v, some (.ref heap.length)] []) := by
  simp [beside]

theorem length_beside : (beside heap v i).length = heap.length + 2 := by
  simp [beside]

/-- What the array holds. -/
theorem walked_pair : (JsObject.array [some v, some (.ref heap.length)] []).walked =
    [v, .ref heap.length] := rfl

theorem wfHeap_beside (hpart : Hostless heap v) : WfHeap (beside heap v i) := by
  have hcases : ∀ (a : Nat) (o : JsObject JsValue), (beside heap v i)[a]? = some o →
      heap[a]? = some o ∨ o = .host i ∨ o = .array [some v, some (.ref heap.length)] [] := by
    intro a o ho
    have hlt := (List.getElem?_eq_some_iff.mp ho).1
    rw [length_beside] at hlt
    rcases Nat.lt_trichotomy a heap.length with h | rfl | h
    · rw [beside_old h] at ho
      exact .inl ho
    · rw [beside_host] at ho
      exact .inr (.inl (Option.some.inj ho).symm)
    · obtain rfl : a = heap.length + 1 := by omega
      rw [beside_array] at ho
      exact .inr (.inr (Option.some.inj ho).symm)
  refine ⟨fun a o ho => ?_, fun a o ho c hc => ?_⟩
  · rcases hcases a o ho with h | rfl | rfl
    · exact hpart.wf.wf a o h
    · trivial
    · trivial
  · rw [length_beside]
    rcases hcases a o ho with h | rfl | rfl
    · exact Nat.lt_of_lt_of_le (hpart.wf.closed a o h c hc) (Nat.le_add_right _ _)
    · exact absurd hc List.not_mem_nil
    · replace hc : Value.ref c ∈ [v, .ref heap.length] := hc
      rcases List.mem_cons.mp hc with heq | hc
      · exact Nat.lt_of_lt_of_le (hpart.inHeap c heq.symm) (Nat.le_add_right _ _)
      · cases List.mem_singleton.mp hc
        omega

theorem inHeap_pair : InHeap (beside heap v i) (pairOf heap) := by
  intro a ha
  cases ha
  rw [length_beside]
  omega

/-- What is walked through of the value is walked through beside the instance. -/
theorem walk_beside (hpart : Hostless heap v) {a : Nat} (ha : Walk heap v a) :
    Walk (beside heap v i) (pairOf heap) a := by
  induction ha with
  | @root a heq =>
    refine (Reach.root rfl).step ?_
    rw [walkEdges_some beside_array, walked_pair, heq]
    exact List.mem_cons_self ..
  | @step b c hb hmem ih =>
    obtain ⟨o, ho⟩ := hpart.get hb
    refine ih.step ?_
    rw [walkEdges_some ((beside_old (List.getElem?_eq_some_iff.mp ho).1).trans ho)]
    rwa [walkEdges_some ho] at hmem

/-- Beside the instance the array, the instance and the value are walked through. -/
theorem walk_beside_cases (hpart : Hostless heap v) {a : Nat}
    (ha : Walk (beside heap v i) (pairOf heap) a) :
    a = heap.length + 1 ∨ a = heap.length ∨ Walk heap v a := by
  induction ha with
  | root heq =>
    cases heq
    exact .inl rfl
  | @step b c _ hmem ih =>
    rcases ih with rfl | rfl | hb
    · rw [walkEdges_some beside_array, walked_pair] at hmem
      rcases List.mem_cons.mp hmem with heq | hmem
      · exact .inr (.inr (.root heq.symm))
      · cases List.mem_singleton.mp hmem
        exact .inr (.inl rfl)
    · rw [walkEdges_some beside_host] at hmem
      exact absurd hmem List.not_mem_nil
    · obtain ⟨o, ho⟩ := hpart.get hb
      rw [walkEdges_some ((beside_old (List.getElem?_eq_some_iff.mp ho).1).trans ho)] at hmem
      exact .inr (.inr (walk_walked hb ho hmem))

/-! ### The copies -/

/-- Whether a body can be sent depends on no more than whether streams can be registered. -/
theorem materializeBody_leg {source : HostBody} {streams' : Option StreamSourceRegistry}
    (hleg : streams'.isSome = streams.isSome)
    {result : MaterializedBody × Option StreamSourceRegistry}
    (h : materializeBody source streams = .ok result) :
    ∃ result', materializeBody source streams' = .ok result' := by
  have hnone : streams'.isNone = streams.isNone := by
    rw [← Option.not_isSome, ← Option.not_isSome, hleg]
  unfold materializeBody at h ⊢
  rw [hnone]
  split at h
  · cases h
  · next hused =>
    rw [if_neg hused]
    split at h
    · exact ⟨_, rfl⟩
    · next chunks failure _ =>
      dsimp only at h ⊢
      split at h
      · cases h
      · exact ⟨_, rfl⟩
      · cases streams with
        | none => cases h
        | some s =>
          cases streams' with
          | none => cases hleg
          | some s' => exact ⟨_, rfl⟩

theorem describe_leg {streams' : Option StreamSourceRegistry} (hleg : streams'.isSome = streams.isSome)
    {result : List String × MaterializedBody × Option StreamSourceRegistry}
    (h : describe i streams = .ok result) : ∃ result', describe i streams' = .ok result' := by
  unfold describe at h ⊢
  cases hflat : flatHeaders i.entries with
  | error message => rw [hflat] at h; cases h
  | ok flat =>
    rw [hflat] at h
    cases hbody : i.body with
    | none => exact ⟨_, rfl⟩
    | some source =>
      simp only [bind, Except.bind, hbody] at h ⊢
      cases hmaterialize : materializeBody source streams with
      | error message => rw [hmaterialize] at h; cases h
      | ok body =>
        obtain ⟨body', hok⟩ := materializeBody_leg hleg hmaterialize
        rw [hok]
        exact ⟨_, rfl⟩

/-- A copy of a whole value copies the parts it walks through. -/
theorem partCopy_of_whole {heap0 : List (JsObject JsValue)} {root : JsValue} {st : Copying}
    (hwhole : WholeCopy brandKey heap0 root streams st) (hpart : Hostless heap v)
    (hlen : heap.length ≤ heap0.length) (hold : ∀ a, a < heap.length → heap0[a]? = heap[a]?)
    (hsub : ∀ a, Walk heap v a → Walk heap0 root a) :
    PartCopy heap v st.heap (image st.seen) := by
  have hlt : ∀ {a}, Walk heap v a → a < heap.length := by
    intro a ha
    obtain ⟨o, ho⟩ := hpart.get ha
    exact (List.getElem?_eq_some_iff.mp ho).1
  have hget : ∀ {a o}, Walk heap v a → heap[a]? = some o → heap0[a]? = some o :=
    fun ha ho => (hold _ (hlt ha)).trans ho
  refine ⟨fun a ha => ?_, fun a o ha ho hkept => ?_, fun a o ha ho hkept => ?_,
    fun a b ha hb heq => ?_⟩
  · rw [hwhole.inv.old a (Nat.lt_of_lt_of_le ha hlen), hold a ha]
  · have hnone : st.seen a = none := by
      cases hseen : st.seen a with
      | none => rfl
      | some b =>
        obtain ⟨p, hp, hnot⟩ := hwhole.inv.source a b hseen
        rw [hget ha ho] at hp
        cases hp
        rw [hkept] at hnot
        cases hnot
    rw [image, hnone]
    rfl
  · rcases hwhole.covered a (hsub a ha) with ⟨b, hb⟩ | hall
    · obtain ⟨⟨b', o', hseen, ho', hcases⟩, -⟩ := hwhole.finished a b hb
      rw [hb] at hseen
      rw [hget ha ho] at ho'
      cases hseen
      cases ho'
      have himage : image st.seen a = b := by
        rw [image, hb]
        rfl
      rcases hcases with ⟨j, rfl, -⟩ | ⟨-, hthrows, hcell, -⟩
      · exact (hpart.kind ha ho).elim
      · rw [himage]
        exact ⟨hlen.trans (hwhole.inv.cell a b hb).1, hthrows, hcell⟩
    · rw [hall o (hget ha ho)] at hkept
      cases hkept
  · exact image_inj hwhole.inv (Nat.lt_of_lt_of_le (hlt ha) hlen)
      (Nat.lt_of_lt_of_le (hlt hb) hlen) heq

/-- What the pre-pass makes of the array. -/
theorem beside_copied (hpart : Hostless heap v)
    {result : List String × MaterializedBody × Option StreamSourceRegistry}
    (hi : describe i streams = .ok result) :
    match materializeHostTypes brandKey (beside heap v i) (pairOf heap) streams with
    | .ok (w, st) => w = (pairOf heap).map (image st.seen) ∧
        WholeCopy brandKey (beside heap v i) (pairOf heap) streams st
    | .error _ => ∃ a proxy, Walk heap v a ∧ heap[a]? = some (.refused proxy .throws) := by
  have hwf : WfHeap (beside heap v i) := wfHeap_beside hpart
  have hhost : hasHostType (beside heap v i) (pairOf heap) = true := by
    rw [hasHostType_iff hwf inHeap_pair]
    refine ⟨heap.length, .host i, (Reach.root rfl).step ?_, beside_host, rfl⟩
    rw [walkEdges_some beside_array, walked_pair]
    exact List.mem_cons_of_mem _ (List.mem_singleton_self _)
  have hwhole := @transform_whole brandKey _ hwf _ (inHeap_pair (v := v) (i := i)) streams
  rw [materializeHostTypes, hhost]
  show match transform brandKey _ _ _ with
    | .ok (w, st) => _
    | .error _ => _
  cases hrun : transform brandKey ((beside heap v i).length + 1) (pairOf heap)
      ⟨beside heap v i, fun _ => none, streams⟩ with
  | ok result =>
    rw [hrun] at hwhole
    exact hwhole
  | error halt =>
    rw [hrun] at hwhole
    obtain ⟨a, o, message, ha, ho, -, hstops⟩ := hwhole
    rcases walk_beside_cases hpart ha with rfl | rfl | hwalk
    · rw [beside_array] at ho
      cases ho
      rcases hstops with ⟨_, _, heq, -⟩ | ⟨_, heq, -⟩
      · cases heq
      · cases heq
    · rw [beside_host] at ho
      cases ho
      rcases hstops with ⟨j, before, heq, hleg, herror⟩ | ⟨_, heq, -⟩
      · cases heq
        obtain ⟨_, hok⟩ := describe_leg hleg hi
        rw [herror] at hok
        cases hok
      · cases heq
    · obtain ⟨p, hp⟩ := hpart.get hwalk
      rw [beside_old (List.getElem?_eq_some_iff.mp hp).1, hp] at ho
      cases ho
      rcases hstops with ⟨j, _, rfl, -⟩ | ⟨proxy, rfl, -⟩
      · exact (hpart.kind hwalk hp).elim
      · exact ⟨a, proxy, hwalk, hp⟩

/-- The value alone: it is untouched, or its parts are copied. -/
theorem alone_copied (hpart : Hostless heap v) {w : JsValue} {st : Copying}
    (h : materializeHostTypes brandKey heap v streams = .ok (w, st)) :
    (w = v ∧ st.heap = heap) ∨
      ∃ f, w = v.map f ∧ PartCopy heap v st.heap f := by
  rw [materializeHostTypes] at h
  cases hhost : hasHostType heap v with
  | false =>
    rw [hhost] at h
    cases h
    exact .inl ⟨rfl, rfl⟩
  | true =>
    have hwhole := @transform_whole brandKey _ hpart.wf _ hpart.inHeap streams
    rw [hhost] at h
    replace h : transform brandKey (heap.length + 1) v ⟨heap, fun _ => none, streams⟩ =
      .ok (w, st) := h
    rw [h] at hwhole
    obtain ⟨rfl, hwhole⟩ := hwhole
    exact .inr ⟨_, rfl, partCopy_of_whole hwhole hpart (Nat.le_refl _) (fun _ _ => rfl)
      fun _ ha => ha⟩

/-! ### The copied array -/

section Copied

variable {st : Copying}
  (hwhole : WholeCopy brandKey (beside heap v i) (pairOf heap) streams st)
  (hpart : Hostless heap v)

include hwhole hpart

theorem partCopy_beside : PartCopy heap v st.heap (image st.seen) := by
  refine partCopy_of_whole hwhole hpart ?_ (fun a ha => beside_old ha) fun a ha => walk_beside hpart ha
  rw [length_beside]
  exact Nat.le_add_right _ _

omit hpart in
/-- The copy of the array holds the stand-ins of the value and of the instance. -/
theorem written_pair : writtenOf st.heap (image st.seen (heap.length + 1)) =
    some (.array [some (v.map (image st.seen)), some (.ref (image st.seen heap.length))] []) := by
  rcases hwhole.covered _ (.root rfl) with ⟨b, hb⟩ | hkept
  · obtain ⟨⟨b', o, hseen, ho, hcases⟩, -⟩ := hwhole.finished _ b hb
    rw [hb] at hseen
    rw [beside_array] at ho
    cases hseen
    cases ho
    have himage : image st.seen (heap.length + 1) = b := by
      rw [image, hb]
      rfl
    rcases hcases with ⟨j, hj, -⟩ | ⟨-, -, hcell, -⟩
    · cases hj
    · rw [himage, writtenOf_some hcell]
      rfl
  · cases hkept _ beside_array

omit hpart in
/-- The instance has its stamped object. -/
theorem stamp_beside : Described brandKey (beside heap v i) st (image st.seen heap.length) i := by
  refine stamp_copy hwhole ((Reach.root rfl).step ?_) beside_host
  rw [walkEdges_some beside_array, walked_pair]
  exact List.mem_cons_of_mem _ (List.mem_singleton_self _)

omit hpart in
/-- The serializer reaches the part from the array. -/
theorem reach_part {b : Nat} (hb : Reach (edgesOf (writtenOf st.heap)) (v.map (image st.seen)) b) :
    Reach (edgesOf (writtenOf st.heap)) ((pairOf heap).map (image st.seen)) b := by
  refine Reach.child (.root rfl) ?_ hb
  rw [edgesOf_some (written_pair hwhole)]
  exact List.mem_cons_self ..

omit hpart in
/-- The serializer accepts the copy of the array when it accepts that of the part. -/
theorem accepted_pair_iff :
    Accepted (fun a => st.heap[a]?) ((pairOf heap).map (image st.seen)) ↔
      Accepted (fun a => st.heap[a]?) (v.map (image st.seen)) := by
  have harray := written_pair hwhole
  constructor
  · intro h
    refine ⟨fun heq => ?_, fun b hb => h.node b (reach_part hwhole hb)⟩
    obtain ⟨o, ho, hdata⟩ := h.node _ (.root rfl)
    cases harray.symm.trans ho
    exact hdata (heq ▸ List.mem_cons_self ..)
  · intro h
    obtain ⟨headers, body, list, props, hstamp, -⟩ := stamp_beside hwhole
    have hdescriptor : writtenOf st.heap (image st.seen heap.length) =
        some (.record true ((brandKey, .prim (.int i.fields.1)) ::
          (i.fields.2 ++ ("headers", .ref list) :: props))) := writtenOf_some hstamp.atCell
    -- The cells of the descriptor hold strings only.
    have hcell : ∀ {c}, CopyCell [] (.prim .null) st c →
        ∃ o : JsObject JsValue, writtenOf st.heap c = some o ∧ ∀ u ∈ o.children, ∃ s, u = str s := by
      rintro c (⟨a, ha, -⟩ | hstrings)
      · exact absurd ha not_reach_prim
      · exact hstrings
    have hvalues : ∀ {u : JsValue}, u ∈ ((brandKey, Value.prim (.int i.fields.1)) ::
        (i.fields.2 ++ ("headers", Value.ref list) :: props)).map Prod.snd →
        u ≠ .prim .behaviour ∧ ∀ c, u = .ref c → CopyCell [] (.prim .null) st c :=
      fun hu => hstamp.values hu
    have hreach : ∀ {b}, Reach (edgesOf (writtenOf st.heap)) ((pairOf heap).map (image st.seen)) b →
        b = image st.seen (heap.length + 1) ∨ b = image st.seen heap.length ∨
          CopyCell [] (.prim .null) st b ∨
          Reach (edgesOf (writtenOf st.heap)) (v.map (image st.seen)) b := by
      intro b hb
      induction hb with
      | root heq => exact .inl (Value.ref.inj heq).symm
      | @step b c _ hmem ih =>
        rcases ih with rfl | rfl | hleaf | hpart
        · rw [edgesOf_some harray] at hmem
          replace hmem : Value.ref c ∈ [v.map (image st.seen), .ref (image st.seen heap.length)] := hmem
          rcases List.mem_cons.mp hmem with heq | hmem
          · exact .inr (.inr (.inr (.root heq.symm)))
          · cases List.mem_singleton.mp hmem
            exact .inr (.inl rfl)
        · rw [edgesOf_some hdescriptor] at hmem
          exact .inr (.inr (.inl ((hvalues hmem).2 c rfl)))
        · obtain ⟨o, ho, hstrings⟩ := hcell hleaf
          rw [edgesOf_some ho] at hmem
          obtain ⟨s, hs⟩ := hstrings _ hmem
          cases hs
        · exact .inr (.inr (.inr (hpart.step hmem)))
    refine ⟨nofun, fun b hb => ?_⟩
    rcases hreach hb with rfl | rfl | hleaf | hpart
    · refine ⟨_, harray, fun hmem => ?_⟩
      replace hmem : Value.prim Prim.behaviour ∈
        [v.map (image st.seen), .ref (image st.seen heap.length)] := hmem
      rcases List.mem_cons.mp hmem with heq | hmem
      · exact h.start heq.symm
      · cases List.mem_singleton.mp hmem
    · exact ⟨_, hdescriptor, fun hmem => (hvalues hmem).1 rfl⟩
    · obtain ⟨o, ho, hstrings⟩ := hcell hleaf
      refine ⟨o, ho, fun hmem => ?_⟩
      obtain ⟨s, hs⟩ := hstrings _ hmem
      cases hs
    · exact h.node b hpart

omit hpart in
/-- The part of a clone of the array is a clone of the part. -/
theorem part_of_clone {heapA : JsHeap} {wA : JsValue}
    (hclone : IsClone (fun a => st.heap[a]?) ((pairOf heap).map (image st.seen)) heapA wA) :
    ∃ r part rest, wA = .ref r ∧ heapA r = some (.array (some part :: rest) []) ∧
      SameGraph (writtenOf st.heap) heapA (v.map (image st.seen)) part := by
  obtain ⟨-, π, h⟩ := hclone
  obtain ⟨o, ho, hcell⟩ := h.node _ (.root rfl)
  cases (written_pair hwhole).symm.trans ho
  exact ⟨_, _, _, h.start, hcell, π, h.part fun b hb => reach_part hwhole hb⟩

end Copied

/-- A clone of the array and one of the value tell whether the part is changed. -/
theorem sameGraph_of_unchanged (hpart : Hostless heap v)
    (h : BesideUnchanged brandKey heap v i streams) (hacc : Accepted (fun a => heap[a]?) v)
    {result : List String × MaterializedBody × Option StreamSourceRegistry}
    (hi : describe i streams = .ok result) : RebuiltAlike heap v := by
  obtain ⟨-, w, st, hok, hwacc, hclones⟩ := h.accepted hacc
  have hcopied := @beside_copied brandKey _ _ _ streams hpart _ hi
  rw [hok] at hcopied
  obtain ⟨rfl, hwhole⟩ := hcopied
  obtain ⟨heapA, wA, hcloneA⟩ := exists_clone hwacc
  obtain ⟨heapB, vB, hcloneB⟩ := exists_clone hacc
  obtain ⟨r, part, rest, rfl, hcell, hsame⟩ := hclones _ _ _ _ hcloneA hcloneB
  obtain ⟨r', part', rest', heq, hcell', hpartA⟩ := part_of_clone hwhole hcloneA
  cases heq
  rw [hcell] at hcell'
  cases hcell'
  refine (sameGraph_copy_iff (partCopy_beside hwhole hpart) hpart hacc).mp ?_
  exact hcloneB.same.trans (hsame.symm.trans hpartA.symm)

/-- **An instance elsewhere changes nothing exactly when** an accepted value is of plain objects,
dense arrays, Maps, Sets, natives and errors that share nothing rebuilt, and a refused one holds
something that stays refused. -/
theorem beside_unchanged_iff (hpart : Hostless heap v)
    (hi : ∃ result, describe i streams = .ok result) :
    BesideUnchanged brandKey heap v i streams ↔
      (Accepted (fun a => heap[a]?) v → RebuiltAlike heap v) ∧
        (¬Accepted (fun a => heap[a]?) v → Refusal heap v) := by
  obtain ⟨result, hi⟩ := hi
  have hcopied := @beside_copied brandKey _ _ _ streams hpart _ hi
  constructor
  · intro h
    refine ⟨fun hacc => sameGraph_of_unchanged hpart h hacc hi, fun hnot => ?_⟩
    by_contra href
    cases hok : materializeHostTypes brandKey (beside heap v i) (pairOf heap) streams with
    | error halt =>
      rw [hok] at hcopied
      obtain ⟨a, proxy, ha, ho⟩ := hcopied
      exact href (.throws a proxy ha ho)
    | ok copied =>
      obtain ⟨w, st⟩ := copied
      rw [hok] at hcopied
      obtain ⟨rfl, hwhole⟩ := hcopied
      refine (h.refused hnot).2 _ st hok ((accepted_pair_iff hwhole).mpr ?_)
      exact (accepted_copy_iff (partCopy_beside hwhole hpart) hpart).mpr href
  · rintro ⟨halike, hrefusal⟩
    refine ⟨fun hacc => ?_, fun hnot => ⟨fun w st hok hw => ?_, fun w st hok hw => ?_⟩⟩
    · have hfree := halike hacc
      have hhost : hasHostType heap v = false := by
        rw [Bool.eq_false_iff]
        intro htrue
        obtain ⟨a, o, ha, ho, hforces⟩ := (hasHostType_iff hpart.wf hpart.inHeap).mp htrue
        rcases hfree.plain a o ha ho with hplain | ⟨leaf, rfl⟩ | ⟨_, _, _, rfl⟩
        · cases o with
          | host j => exact hplain.elim
          | refused _ _ => exact hplain.elim
          | _ => cases hforces
        · cases hforces
        · cases hforces
      refine ⟨by rw [materializeHostTypes, hhost]; rfl, ?_⟩
      cases hok : materializeHostTypes brandKey (beside heap v i) (pairOf heap) streams with
      | error halt =>
        rw [hok] at hcopied
        obtain ⟨a, proxy, ha, ho⟩ := hcopied
        rcases hfree.plain a _ ha ho with hplain | ⟨_, heq⟩ | ⟨_, _, _, heq⟩
        · exact hplain.elim
        · cases heq
        · cases heq
      | ok copied =>
        obtain ⟨w, st⟩ := copied
        rw [hok] at hcopied
        obtain ⟨rfl, hwhole⟩ := hcopied
        have hcopy := partCopy_beside hwhole hpart
        have hsame := (sameGraph_copy_iff hcopy hpart hacc).mpr hfree
        refine ⟨_, st, rfl, (accepted_pair_iff hwhole).mpr (hacc.of_sameGraph hsame),
          fun heapA heapB wA vB hcloneA hcloneB => ?_⟩
        obtain ⟨r, part, rest, hroot, hcell, hpartA⟩ := part_of_clone hwhole hcloneA
        exact ⟨r, part, rest, hroot, hcell, hpartA.symm.trans (hsame.symm.trans hcloneB.same)⟩
    · rcases alone_copied hpart hok with ⟨rfl, hheap⟩ | ⟨f, rfl, hcopy⟩
      · rw [hheap] at hw
        exact hnot hw
      · exact (accepted_copy_iff hcopy hpart).mp hw (hrefusal hnot)
    · rw [hok] at hcopied
      obtain ⟨rfl, hwhole⟩ := hcopied
      refine (accepted_copy_iff (partCopy_beside hwhole hpart) hpart).mp ?_ (hrefusal hnot)
      exact (accepted_pair_iff hwhole).mp hw

end Beside

/-- A small heap, in which every object is looked at. -/
theorem hostless_of_all {heap : List (JsObject JsValue)} {v : JsValue}
    (hwf : ∀ o ∈ heap, o.Wf) (hclosed : ∀ o ∈ heap, ∀ c, .ref c ∈ o.children → c < heap.length)
    (hv : InHeap heap v) (hkinds : ∀ o ∈ heap, o.HasNoHost) : Hostless heap v :=
  ⟨⟨fun _ o ho => hwf o (List.mem_of_getElem? ho), fun _ o ho => hclosed o (List.mem_of_getElem? ho)⟩,
    hv, fun _ o _ ho => hkinds o (List.mem_of_getElem? ho)⟩

theorem accepted_of_all {heap : List (JsObject JsValue)} {v : JsValue} (hpart : Hostless heap v)
    (hv : v ≠ .prim .behaviour)
    (hwritten : ∀ o ∈ heap, ∃ p, o.written = some p ∧ Value.prim Prim.behaviour ∉ p.children) :
    Accepted (fun a => heap[a]?) v := by
  refine ⟨hv, fun a ha => ?_⟩
  have hlt := written_lt hpart.wf hpart.inHeap ha
  obtain ⟨p, hp, hdata⟩ := hwritten heap[a] (List.getElem_mem hlt)
  exact ⟨p, (writtenOf_some (List.getElem?_eq_getElem hlt)).trans hp, hdata⟩

/-- A record that a Map holds, beside an error without a cause. -/
def plainHeap : List (JsObject JsValue) :=
  [.record true [("map", .ref 1), ("error", .ref 2)], .map [(.prim (.int 1), .ref 0)],
    .error "Error" "stop" none]

theorem beside_unchanged_plain :
    BesideUnchanged (brandKeyForToken [0]) plainHeap (.ref 0) (.headers []) none := by
  have hpart : Hostless plainHeap (.ref 0) := by
    refine hostless_of_all ?_ ?_ ?_ ?_
    · simp [plainHeap, JsObject.Wf]
    · simp [plainHeap, JsObject.children]
    · intro a heq
      cases heq
      decide
    · simp [plainHeap, JsObject.HasNoHost]
  refine (beside_unchanged_iff hpart ⟨_, rfl⟩).mpr ⟨fun _ => ⟨fun a o _ ho => ?_,
    fun a name message cause c o _ ho hc hwalk hoc => ?_⟩, fun hnot => absurd ?_ hnot⟩
  · have hmem := List.mem_of_getElem? ho
    simp only [plainHeap, List.mem_cons, List.not_mem_nil, or_false] at hmem
    rcases hmem with rfl | rfl | rfl
    · exact .inl trivial
    · exact .inl trivial
    · exact .inr (.inr ⟨_, _, _, rfl⟩)
  · -- The error holds nothing, so nothing else is reached from it.
    have hcause : cause = none := by
      have hmem := List.mem_of_getElem? ho
      simp [plainHeap] at hmem
      exact hmem.2.2
    subst hcause
    have hself : c = a := by
      clear hoc hwalk
      induction hc with
      | root heq => exact (Value.ref.inj heq).symm
      | step _ hmem ih =>
        rw [ih, edgesOf_some (writtenOf_some ho)] at hmem
        exact absurd hmem List.not_mem_nil
    rw [hself, ho] at hoc
    cases hoc
    rfl
  · refine accepted_of_all hpart (by simp) ?_
    simp [plainHeap, JsObject.written, JsObject.children, Prim.int]

/-- The array `[, 1]`. -/
def sparseHeap : List (JsObject JsValue) := [.array [none, some (.prim (.int 1))] []]

/-- **A sparse array is changed** by an instance beside it: its hole becomes `undefined`. -/
theorem sparse_beside : Accepted (fun a => sparseHeap[a]?) (.ref 0) ∧
    ¬BesideUnchanged (brandKeyForToken [0]) sparseHeap (.ref 0) (.headers []) none := by
  have hpart : Hostless sparseHeap (.ref 0) := by
    refine hostless_of_all ?_ ?_ ?_ ?_
    · simp [sparseHeap, JsObject.Wf]
    · simp [sparseHeap, JsObject.children]
    · intro a heq
      cases heq
      decide
    · simp [sparseHeap, JsObject.HasNoHost]
  have hacc : Accepted (fun a => sparseHeap[a]?) (.ref 0) := by
    refine accepted_of_all hpart (by simp) ?_
    simp [sparseHeap, JsObject.written, JsObject.children, Prim.int]
  refine ⟨hacc, fun h => ?_⟩
  have hplain := (sameGraph_of_unchanged hpart h hacc rfl).plain 0 _ (.root rfl) rfl
  rcases hplain with ⟨hdense, -⟩ | ⟨_, heq⟩ | ⟨_, _, _, heq⟩
  · exact absurd (hdense none (by simp)) (by decide)
  · cases heq
  · cases heq

end Iso4
