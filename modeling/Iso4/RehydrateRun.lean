/-
The walk over a received value ends, and every object has its stand-in.

One round takes a container from the worklist, visits its values and writes it back.  Every visit
that adds a container to the list meets an object that was not met before, so the objects not met
and the pending ones get fewer with every round.

* `visitAll_spec` — what visiting the values of a container does;
* `walk_step` — one round;
* `walk_spec` — the walk ends with nothing pending;
* `rehydrate_spec` — every object has its stand-in, and holds stand-ins only.
-/
import Iso4.RehydrateWalk

namespace Iso4

open Graph Js

section Receiving

variable {brandKey : String} {running : Bool}
  {content : HostInstance → List String → MaterializedBody → Prop}
  {heap0 : List (JsObject JsValue)} {v0 : JsValue} {name : Nat → Nat}
  {heap2 : List (JsObject JsValue)}

/-! ### The values of a container -/

/-- What was met before some visits has the same stand-in after them. -/
theorem WalkInv.stand_eq (hsent : Sent brandKey running content heap0 v0 name heap2)
    {busy : Option Nat} {st st' : Walking} (hinv : WalkInv content heap0 v0 name heap2 busy st')
    (hon : Onward heap2.length st st') {u : JsValue} (hu : ∀ c, u = .ref c → Walk heap0 v0 c)
    (hmet : ∀ c, u = .ref c → Met heap0 name st c) :
    u.map (stand name st') = u.map (stand name st) :=
  Value.map_congr fun c hc =>
    stand_stable hon (fun _ _ _ hd ho hb => hsent.not_buffer hinv hd ho hb) (hu c hc) (hmet c hc)

/-- Different objects that were met have different stand-ins. -/
theorem WalkInv.stand_inj (hsent : Sent brandKey running content heap0 v0 name heap2)
    {busy : Option Nat} {st : Walking} (hinv : WalkInv content heap0 v0 name heap2 busy st)
    {b c : Nat} (hb : Walk heap0 v0 b) (hc : Walk heap0 v0 c)
    (heq : stand name st b = stand name st c) : b = c := by
  -- A stand-in is behind the received heap, or it is the name itself.
  have hcases : ∀ {a}, Walk heap0 v0 a →
      (∃ x, st.seen (name a) = some x ∧ stand name st a = x ∧ heap2.length ≤ x) ∨
        stand name st a = name a := by
    intro a ha
    obtain ⟨o, ho⟩ := hsent.get ha
    unfold stand
    cases hseen : st.seen (name a) with
    | none => exact .inr rfl
    | some x =>
      rcases hsent.met_of_seen hinv ha ho hseen with ⟨i, -, hge, -⟩ | ⟨-, -, hself⟩
      · exact .inl ⟨x, rfl, rfl, hge⟩
      · exact .inr hself
  have hblt := hsent.lt hb
  have hclt := hsent.lt hc
  rcases hcases hb with ⟨x, hbx, hbstand, hxge⟩ | hbname
  · rcases hcases hc with ⟨y, hcy, hcstand, -⟩ | hcname
    · rw [hbstand, hcstand] at heq
      exact hsent.inj b c hb hc (hinv.inj _ _ x hbx (heq ▸ hcy))
    · rw [hbstand, hcname] at heq
      omega
  · rcases hcases hc with ⟨y, -, hcstand, hyge⟩ | hcname
    · rw [hbname, hcstand] at heq
      omega
    · rw [hbname, hcname] at heq
      exact hsent.inj b c hb hc heq

/-- **What visiting the values of a container does**: each has its stand-in afterwards. -/
theorem visitAll_spec (hkey : ∀ name ∈ descriptorNames, name ≠ brandKey)
    (hsent : Sent brandKey running content heap0 v0 name heap2) {busy : Option Nat}
    {us : List JsValue} {st : Walking} (hinv : WalkInv content heap0 v0 name heap2 busy st)
    (hus : ∀ u ∈ us, ∀ c, u = .ref c → Walk heap0 v0 c) :
    ∃ stands st', visitAll brandKey running (us.map (Value.map name)) st = .ok (stands, st') ∧
      WalkInv content heap0 v0 name heap2 busy st' ∧ Onward heap2.length st st' ∧
      stands.length = us.length ∧
      replaced (us.map (Value.map name)) stands = us.map (Value.map (stand name st')) ∧
      ∀ u ∈ us, ∀ c, u = .ref c → Met heap0 name st' c := by
  induction us generalizing st with
  | nil =>
    exact ⟨[], st, rfl, hinv, .refl _ st, rfl, rfl, fun u hu => absurd hu List.not_mem_nil⟩
  | cons u us ih =>
    have hu := hus u (List.mem_cons_self ..)
    obtain ⟨s, st1, hvisit, hinv1, hon1, hs, hmet1, -⟩ := visit_spec hkey hsent hinv hu
    obtain ⟨stands, st2, hrest, hinv2, hon2, hlen, hstands, hmet2⟩ := ih hinv1
      fun w hw => hus w (List.mem_cons_of_mem u hw)
    refine ⟨s :: stands, st2, ?_, hinv2, hon1.trans hon2, by simp [hlen], ?_, fun w hw c hc => ?_⟩
    · rw [List.map_cons, visitAll, hvisit]
      show (visitAll brandKey running (us.map (Value.map name)) st1).bind _ = _
      rw [hrest]
      rfl
    · have hsame : u.map (stand name st2) = u.map (stand name st1) :=
        hinv2.stand_eq hsent hon2 hu hmet1
      rw [List.map_cons, List.map_cons, hsame, ← hs, ← hstands]
      rfl
    · rcases List.mem_cons.mp hw with rfl | hw
      · exact (hmet1 c hc).mono hon2
      · exact hmet2 w hw c hc

/-! ### One round -/

/-- A sandbox instance stands apart from the containers of the graph. -/
theorem Received.write {heap : List (JsObject JsValue)} {own : Nat → Prop} {b x : Nat}
    {i : HostInstance} {o o' : JsObject JsValue} (h : Received content own heap b i)
    (hx : heap[x]? = some o) (ho : o.Receivable) (hbuffer : o.isBuffer = false) (hown : ¬own x) :
    Received content own (heap.set x o') b i := by
  obtain ⟨headers, body, list, hlist, hinstance, hflat, hcontent⟩ := h
  have hother : ∀ (c : Nat) (p : JsObject JsValue), heap[c]? = some p →
      (p.Receivable → p.isBuffer = true) → (heap.set x o')[c]? = some p := by
    intro c p hc hp
    have hne : x ≠ c := by
      rintro rfl
      rw [hx] at hc
      cases hc
      rw [hp ho] at hbuffer
      cases hbuffer
    rw [List.getElem?_set_ne hne, hc]
  have hbody : ∀ v, BodyValue heap v body → BodyValue (heap.set x o') v body := by
    intro v hv
    cases body with
    | null => exact hv
    | bytes data =>
      obtain ⟨c, hvc, hc⟩ := hv
      exact ⟨c, hvc, hother c _ hc fun _ => rfl⟩
    | stream id =>
      obtain ⟨c, hvc, hc⟩ := hv
      exact ⟨c, hvc, hother c _ hc fun h => h.elim⟩
  refine ⟨headers, body, list, hlist, ?_, ?_, hcontent⟩
  · cases i with
    | headers entries => exact hother _ _ hinstance fun h => h.elim
    | request url method entries source =>
      obtain ⟨h, v, hb, hh, hv⟩ := hinstance
      exact ⟨h, v, hother _ _ hb fun h => h.elim, hother _ _ hh fun h => h.elim, hbody v hv⟩
    | response status statusText entries source =>
      obtain ⟨h, v, hb, hh, hv⟩ := hinstance
      exact ⟨h, v, hother _ _ hb fun h => h.elim, hother _ _ hh fun h => h.elim, hbody v hv⟩
  · have hne : x ≠ list := fun heq => hown (heq ▸ hlist)
    rw [List.getElem?_set_ne hne, hflat]

/-- A container is taken from the worklist. -/
theorem WalkInv.take {st : Walking} {x : Nat} {rest : List Nat}
    (hinv : WalkInv content heap0 v0 name heap2 none st) (hpending : st.pending = x :: rest) :
    WalkInv content heap0 v0 name heap2 (some x) { st with pending := rest } where
  len := hinv.len
  met := hinv.met
  inj := hinv.inj
  pending z hz := by
    have hnodup := hinv.nodup
    rw [hpending, List.nodup_cons] at hnodup
    refine ⟨(hinv.pending z (by rw [hpending]; exact List.mem_cons_of_mem x hz)).1, fun heq => ?_⟩
    cases heq
    exact hnodup.1 hz
  nodup := by
    have hnodup := hinv.nodup
    rw [hpending, List.nodup_cons] at hnodup
    exact hnodup.2
  reading z hz := by
    cases hz
    exact (hinv.pending x (by rw [hpending]; exact List.mem_cons_self ..)).1
  todo a o ha ho hreceivable hcase := by
    refine hinv.todo a o ha ho hreceivable ?_
    rw [hpending, List.mem_cons]
    rcases hcase with hnone | hmem | hbusy
    · exact .inl hnone
    · exact .inr (.inl (.inr hmem))
    · exact .inr (.inl (.inl (Option.some.inj hbusy).symm))
  done a o ha ho hreceivable hself hnot hbusy := by
    refine hinv.done a o ha ho hreceivable hself ?_ nofun
    rw [hpending, List.mem_cons, not_or]
    exact ⟨fun heq => hbusy (heq ▸ rfl), hnot⟩
  rest := hinv.rest

/-- The container that is read is written back with the stand-ins of its values. -/
theorem WalkInv.putBack (hsent : Sent brandKey running content heap0 v0 name heap2)
    {st : Walking} {a : Nat} {o : JsObject JsValue} (ha : Walk heap0 v0 a) (ho : heap0[a]? = some o)
    (hreceivable : o.Receivable) (hbuffer : o.isBuffer = false)
    (hinv : WalkInv content heap0 v0 name heap2 (some (name a)) st)
    (hmet : ∀ c, .ref c ∈ o.children → Met heap0 name st c) :
    WalkInv content heap0 v0 name heap2 none
      (st.write (name a) (o.flattened.mapValues (Value.map (stand name st)))) := by
  have hlt := hsent.lt ha
  have hcell : st.heap[name a]? = some (o.flattened.mapValues (Value.map name)) :=
    (hinv.todo a o ha ho hreceivable (.inr (.inr rfl))).trans (hsent.object a o ha ho hreceivable)
  have hplain : (o.flattened.mapValues (Value.map name)).Receivable :=
    (flattened_receivable hreceivable).1.mapValues (Value.map name)
  have hnot : ¬Apart heap0 v0 name (name a) := fun h => h a ha rfl
  have hself : st.seen (name a) = some (name a) := hinv.reading _ rfl
  have hother : ∀ x (p : JsObject JsValue), x ≠ name a →
      (st.write (name a) p).heap[x]? = st.heap[x]? :=
    fun x p hne => List.getElem?_set_ne (Ne.symm hne)
  have hnotPending : name a ∉ st.pending := fun hmem => (hinv.pending _ hmem).2 rfl
  refine ⟨?_, fun x y hx => ?_, hinv.inj, fun x hx => ⟨(hinv.pending x hx).1, nofun⟩,
    hinv.nodup, nofun, fun b p hb hp hb' hcase => ?_,
    fun b p hb hp hb' hbself hbnot _ => ?_, fun x hx hne => ?_⟩
  · rw [show (st.write (name a) _).heap.length = st.heap.length from List.length_set]
    exact hinv.len
  · obtain ⟨b, p, hb, hp, hxb, hcases⟩ := hinv.met x y hx
    refine ⟨b, p, hb, hp, hxb, ?_⟩
    rcases hcases with ⟨i, hi, hge, hylt, hreceived⟩ | hsame
    · refine .inl ⟨i, hi, hge, ?_, ?_⟩
      · rw [show (st.write (name a) _).heap.length = st.heap.length from List.length_set]
        exact hylt
      · exact hreceived.write hcell hplain (by rw [isBuffer_flattened, hbuffer]) hnot
    · exact .inr hsame
  · have hne : name b ≠ name a := by
      intro heq
      rcases hcase with hnone | hmem | hbusy
      · rw [heq] at hnone
        exact absurd (hnone.symm.trans hself) (by simp)
      · exact hnotPending (heq ▸ hmem)
      · cases hbusy
    rw [hother _ _ hne]
    exact hinv.todo b p hb hp hb' (hcase.imp id (Or.imp id nofun))
  · by_cases hne : name b = name a
    · obtain rfl := hsent.inj b a hb ha hne
      rw [ho] at hp
      cases hp
      refine ⟨?_, hmet⟩
      show (st.heap.set (name b) _)[name b]? = _
      rw [List.getElem?_set_self (Nat.lt_of_lt_of_le hlt hinv.len)]
      rfl
    · rw [hother _ _ hne]
      exact hinv.done b p hb hp hb' hbself hbnot fun h => hne (Option.some.inj h).symm
  · rw [hother x _ fun heq => hne a o ha ho hreceivable heq.symm]
    exact hinv.rest x hx hne

/-- **One round of the walk.** -/
theorem walk_step (hkey : ∀ name ∈ descriptorNames, name ≠ brandKey)
    (hsent : Sent brandKey running content heap0 v0 name heap2) {st : Walking}
    (hinv : WalkInv content heap0 v0 name heap2 none st) {x : Nat} {rest : List Nat}
    (hpending : st.pending = x :: rest) :
    ∃ o stands st', st.heap[x]? = some o ∧
      visitAll brandKey running o.visited { st with pending := rest } = .ok (stands, st') ∧
      WalkInv content heap0 v0 name heap2 none (st'.write x (o.refilled stands)) ∧
      Onward heap2.length { st with pending := rest } st' := by
  have hmem : x ∈ st.pending := by
    rw [hpending]
    exact List.mem_cons_self ..
  -- A pending address stands for itself, so it is a container of the graph.
  obtain ⟨a, o, ha, ho, rfl, hcases⟩ := hinv.met x x (hinv.pending x hmem).1
  rcases hcases with ⟨i, -, hge, -⟩ | ⟨hreceivable, hbuffer, -⟩
  · exact absurd (hsent.lt ha) (Nat.not_lt.mpr hge)
  obtain ⟨hflat, hchildren, hwf⟩ := flattened_receivable hreceivable
  have hcell : st.heap[name a]? = some (o.flattened.mapValues (Value.map name)) :=
    (hinv.todo a o ha ho hreceivable (.inr (.inl hmem))).trans
      (hsent.object a o ha ho hreceivable)
  have hwalk : ∀ u ∈ o.children, ∀ c, u = .ref c → Walk heap0 v0 c :=
    fun u hu c hc => walk_child ha ho hreceivable (hc ▸ hu)
  obtain ⟨stands, st', hvisit, hinv', hon, hlen, hstands, hmet⟩ :=
    visitAll_spec hkey hsent (hinv.take hpending) hwalk
  have hmet' : ∀ c, .ref c ∈ o.children → Met heap0 name st' c :=
    fun c hc => hmet _ hc c rfl
  have hvisited : (o.flattened.mapValues (Value.map name)).visited =
      o.children.map (Value.map name) := by
    rw [visited_mapValues _ hflat, hchildren]
  have hrefilled : (o.flattened.mapValues (Value.map name)).refilled stands =
      o.flattened.mapValues (Value.map (stand name st')) := by
    refine refilled_eq hflat (hwf (hsent.wf.wf a o ho)) (by rw [hlen, hchildren])
      (by rw [hchildren, hstands]) fun b c hb hc heq => ?_
    rw [hchildren] at hb hc
    exact hinv'.stand_inj hsent (hwalk _ hb b rfl) (hwalk _ hc c rfl) heq
  refine ⟨_, stands, st', hcell, by rw [hvisited, hvisit], ?_, hon⟩
  rw [hrefilled]
  exact hinv'.putBack hsent ha ho hreceivable hbuffer hmet'

/-! ### The walk -/

/-- **The walk ends with nothing pending**, and what was met keeps its stand-in. -/
theorem walk_spec (hkey : ∀ name ∈ descriptorNames, name ≠ brandKey)
    (hsent : Sent brandKey running content heap0 v0 name heap2) (fuel : Nat) :
    ∀ st : Walking, WalkInv content heap0 v0 name heap2 none st →
      unmet heap2.length (fun x => (st.seen x).isSome) + st.pending.length < fuel →
      ∃ st', walk brandKey running fuel st = .ok st' ∧
        WalkInv content heap0 v0 name heap2 none st' ∧ st'.pending = [] ∧
        ∀ x y, st.seen x = some y → st'.seen x = some y := by
  induction fuel with
  | zero => exact fun _ _ hfuel => absurd hfuel (Nat.not_lt_zero _)
  | succ fuel ih =>
    intro st hinv hfuel
    cases hpending : st.pending with
    | nil =>
      refine ⟨st, ?_, hinv, hpending, fun _ _ h => h⟩
      rw [walk, hpending]
    | cons x rest =>
      obtain ⟨o, stands, st1, hcell, hvisit, hinv1, hon⟩ := walk_step hkey hsent hinv hpending
      have hwork : unmet heap2.length (fun y => (st1.seen y).isSome) + st1.pending.length ≤
          unmet heap2.length (fun y => (st.seen y).isSome) + rest.length := hon.work
      have hless : unmet heap2.length (fun y => (st1.seen y).isSome) + st1.pending.length < fuel := by
        rw [hpending, List.length_cons] at hfuel
        omega
      obtain ⟨st', hwalk, hinv', hempty, hseen⟩ := ih (st1.write x (o.refilled stands)) hinv1 hless
      refine ⟨st', ?_, hinv', hempty, fun y z hy => hseen y z (hon.seen y z hy)⟩
      rw [walk, hpending]
      dsimp only
      rw [hcell]
      dsimp only
      rw [hvisit]
      exact hwalk

/-- When nothing is pending, everything that is reached was met. -/
theorem WalkInv.met_of_walk (hsent : Sent brandKey running content heap0 v0 name heap2)
    {st : Walking} (hinv : WalkInv content heap0 v0 name heap2 none st) (hempty : st.pending = [])
    (hroot : ∀ c, v0 = .ref c → Met heap0 name st c) {a : Nat} (ha : Walk heap0 v0 a) :
    Met heap0 name st a := by
  induction ha with
  | root heq => exact hroot _ heq
  | @step a c ha hmem ih =>
    obtain ⟨o, ho⟩ := hsent.get ha
    rw [walkEdges_some ho] at hmem
    rcases hsent.kinds a o ha ho with ⟨i, rfl⟩ | ⟨hreceivable, -⟩
    · exact absurd hmem List.not_mem_nil
    · rw [walked_of_receivable hreceivable] at hmem
      rcases ih with ⟨b, hb⟩ | ⟨p, hp, hbuffer⟩
      · -- A container that was met and is not pending holds stand-ins.
        obtain rfl : b = name a := by
          rcases hsent.met_of_seen hinv ha ho hb with ⟨i, rfl, -⟩ | ⟨-, -, hself⟩
          · exact hreceivable.elim
          · exact hself
        exact (hinv.done a o ha ho hreceivable hb (by simp [hempty]) nofun).2 c hmem
      · -- A buffer holds no values.
        rw [ho] at hp
        cases hp
        cases o with
        | native leaf => exact absurd hmem List.not_mem_nil
        | _ => cases hbuffer

/-- What the sandbox has of an object of the graph. -/
def Delivered (content : HostInstance → List String → MaterializedBody → Prop)
    (heap : List (JsObject JsValue)) (φ : Nat → Nat) (a : Nat) (o : JsObject JsValue) : Prop :=
  (∃ i, o = .host i ∧ Received content (fun _ => True) heap (φ a) i) ∨
    (o.Receivable ∧ heap[φ a]? = some (o.flattened.mapValues (Value.map φ)))

/-- Before the walk nothing was met. -/
theorem WalkInv.start :
    WalkInv content heap0 v0 name heap2 none ⟨heap2, fun _ => none, [], []⟩ where
  len := Nat.le_refl _
  met x y hx := by cases hx
  inj x x' y hx := by cases hx
  pending x hx := absurd hx List.not_mem_nil
  nodup := List.nodup_nil
  reading x hx := by cases hx
  todo _ _ _ _ _ _ := rfl
  done _ _ _ _ _ hself := by cases hself
  rest _ _ _ := rfl

/-- A buffer was never replaced. -/
theorem WalkInv.seen_buffer (hsent : Sent brandKey running content heap0 v0 name heap2)
    {busy : Option Nat} {st : Walking} (hinv : WalkInv content heap0 v0 name heap2 busy st)
    {a : Nat} {o : JsObject JsValue} (ha : Walk heap0 v0 a) (ho : heap0[a]? = some o)
    (hbuffer : o.isBuffer = true) : st.seen (name a) = none := by
  cases hseen : st.seen (name a) with
  | none => rfl
  | some b =>
    rw [hsent.not_buffer hinv ha ho hseen] at hbuffer
    cases hbuffer

/-- When nothing is pending, everything that is reached was delivered. -/
theorem WalkInv.delivered (hsent : Sent brandKey running content heap0 v0 name heap2)
    {st : Walking} (hinv : WalkInv content heap0 v0 name heap2 none st) (hempty : st.pending = [])
    (hroot : ∀ c, v0 = .ref c → Met heap0 name st c) {a : Nat} {o : JsObject JsValue}
    (ha : Walk heap0 v0 a) (ho : heap0[a]? = some o) :
    Delivered content st.heap (stand name st) a o := by
  have hmet := hinv.met_of_walk hsent hempty hroot ha
  rcases hmet with ⟨b, hb⟩ | ⟨p, hp, hbuffer⟩
  · have hstand : stand name st a = b := by
      rw [stand, hb]
      rfl
    rcases hsent.met_of_seen hinv ha ho hb with ⟨i, rfl, -, -, hreceived⟩ | ⟨hreceivable, -, rfl⟩
    · obtain ⟨headers, body, list, -, hrest⟩ := hreceived
      exact .inl ⟨i, rfl, headers, body, list, trivial, hstand ▸ hrest⟩
    · refine .inr ⟨hreceivable, ?_⟩
      rw [hstand]
      exact (hinv.done a o ha ho hreceivable hb (by simp [hempty]) (by simp)).1
  · rw [ho] at hp
    cases hp
    have hnone := hinv.seen_buffer hsent ha ho hbuffer
    have hstand : stand name st a = name a := by
      rw [stand, hnone]
      rfl
    cases o with
    | native leaf =>
      refine .inr ⟨trivial, ?_⟩
      rw [hstand, hinv.todo a _ ha ho trivial (.inl hnone), hsent.object a _ ha ho trivial]
      rfl
    | _ => cases hbuffer

/-- **Every object has its stand-in, and holds stand-ins only.** -/
theorem rehydrate_spec (hkey : ∀ name ∈ descriptorNames, name ≠ brandKey)
    (hsent : Sent brandKey running content heap0 v0 name heap2) :
    ∃ (φ : Nat → Nat) (st : Walking),
      rehydrate brandKey running heap2 (v0.map name) = .ok (v0.map φ, st) ∧
      (∀ a b, Walk heap0 v0 a → Walk heap0 v0 b → φ a = φ b → a = b) ∧
      ∀ a o, Walk heap0 v0 a → heap0[a]? = some o → Delivered content st.heap φ a o := by
  obtain ⟨s, st1, hvisit, hinv1, hon1, hs, hmet1, hsome⟩ :=
    visit_spec hkey hsent WalkInv.start fun c hc => Reach.root hc
  cases s with
  | some w =>
    refine ⟨stand name st1, st1, ?_, fun a b ha hb heq => hinv1.stand_inj hsent ha hb heq,
      fun a o ha ho => hinv1.delivered hsent (hsome rfl) hmet1 ha ho⟩
    unfold rehydrate
    rw [hvisit]
    exact congrArg (fun u => Except.ok (u, st1)) hs
  | none =>
    have hfuel : unmet heap2.length (fun x => (st1.seen x).isSome) + st1.pending.length <
        heap2.length + 1 :=
      Nat.lt_succ_of_le (hon1.work.trans unmet_le_self)
    obtain ⟨st2, hwalk, hinv2, hempty, hseen⟩ := walk_spec hkey hsent _ st1 hinv1 hfuel
    have hmet2 : ∀ c, v0 = .ref c → Met heap0 name st2 c := by
      intro c hc
      rcases hmet1 c hc with ⟨b, hb⟩ | hbuffer
      · exact .inl ⟨b, hseen _ b hb⟩
      · exact .inr hbuffer
    refine ⟨stand name st2, st2, ?_, fun a b ha hb heq => hinv2.stand_inj hsent ha hb heq,
      fun a o ha ho => hinv2.delivered hsent hempty hmet2 ha ho⟩
    -- The root stands for itself, before the walk and after it.
    have hroot : v0.map name = v0.map (stand name st2) := by
      rw [Option.getD_none] at hs
      rw [hs]
      refine Value.map_congr fun c hc => ?_
      unfold stand
      rcases hmet1 c hc with ⟨b, hb⟩ | ⟨o, ho, hbuffer⟩
      · rw [hb, hseen _ b hb]
      · rw [hinv1.seen_buffer hsent (.root hc) ho hbuffer,
          hinv2.seen_buffer hsent (.root hc) ho hbuffer]
    unfold rehydrate
    rw [hvisit]
    show (walk brandKey running (heap2.length + 1) st1).bind _ = _
    rw [hwalk, hroot]
    rfl

end Receiving

end Iso4
