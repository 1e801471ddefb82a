/-
The life of a stored prefix (`crates/core/src/engine.rs`).

An id is stored once: `prepare` takes a fresh number, and no other section inserts under an
absent key.  From then on the entry only fades: it may break, and it may go.

* `StoreStep`, `storeStep_step` — what one critical section does to the store;
* `EngineState.Numbered` — the ids given out so far;
* `fades_exec` — what a run does to an entry once its id is stored;
* `disposed_prefixes_idle` — the instances of a prefix that cannot run are all held, a broken
  prefix keeps its cause, and a prefix once gone stays gone.
-/
import Iso4.PrefixStore

namespace Iso4

open Ipc hiding F64

/-! ### Ids -/

section Life

set_option linter.unusedSectionVars false

variable {F : Type} [F64 F]

/-- `p` has been stored under its id. -/
def EngineState.Issued (e : EngineState F) (p : String) : Prop :=
  ∃ n < e.nextPrefixId, p = toString n ∧ ∀ d ∈ e.preparing, d.id ≠ n

/-- The ids of the prefixes, those being prepared and those stored. -/
structure EngineState.Numbered (e : EngineState F) : Prop where
  below : ∀ d ∈ e.preparing, d.id < e.nextPrefixId
  distinct : (e.preparing.map PrefixData.id).Nodup
  unstored : ∀ d ∈ e.preparing, e.prefixes.lookup (toString d.id) = none
  stored : ∀ p, e.prefixes.lookup p ≠ none → e.Issued p

/-- What may happen to an entry that has been stored. -/
inductive Fades : Option StoredPrefix → Option StoredPrefix → Prop where
  | same (x : Option StoredPrefix) : Fades x x
  | gone (x : Option StoredPrefix) : Fades x none
  | breaks (data : PrefixData) (cause : RunErrorPayload) :
      Fades (some (.ready data)) (some (.broken cause))

theorem Fades.trans {x y z : Option StoredPrefix} (h : Fades x y) (h' : Fades y z) : Fades x z := by
  cases h' with
  | same => exact h
  | gone => exact .gone x
  | breaks data cause =>
    cases h with
    | same => exact .breaks data cause

theorem Fades.of_none {y : Option StoredPrefix} (h : Fades none y) : y = none := by
  cases h with
  | same => rfl
  | gone => rfl

theorem Fades.of_broken {c : RunErrorPayload} {y : Option StoredPrefix}
    (h : Fades (some (.broken c)) y) : y = some (.broken c) ∨ y = none := by
  cases h with
  | same => exact .inl rfl
  | gone => exact .inr rfl

theorem Fades.of_stored {x : Option StoredPrefix} {y : StoredPrefix} (h : Fades x (some y)) :
    x ≠ none := by
  rintro rfl
  cases h.of_none

variable {e e' : EngineState F} {cfg : WarmConfig}

theorem natToString_injective {m n : Nat} (h : toString m = toString n) : m = n :=
  Nat.repr_injective h

/-! ### One section -/

/-- What a critical section does to the store: an id is taken, a prefix is stored under the
id it took, or the entries fade. -/
inductive StoreStep (e e' : EngineState F) : Prop where
  | taken (data : PrefixData) (hid : data.id = e.nextPrefixId)
      (hnext : e'.nextPrefixId = e.nextPrefixId + 1)
      (hpreparing : e'.preparing = e.preparing ++ [data]) (hprefixes : e'.prefixes = e.prefixes)
  | stored (k : Nat) (data : PrefixData) (hk : e.preparing[k]? = some data)
      (hnext : e'.nextPrefixId = e.nextPrefixId) (hpreparing : e'.preparing = e.preparing.eraseIdx k)
      (hprefixes : e'.prefixes = e.prefixes.insert (toString data.id) (.ready data))
  | faded (hnext : e'.nextPrefixId = e.nextPrefixId) (hpreparing : e'.preparing = e.preparing)
      (hfades : ∀ p, Fades (e.prefixes.lookup p) (e'.prefixes.lookup p))

/-- A section that leaves the store alone. -/
theorem StoreStep.unmoved (hnext : e'.nextPrefixId = e.nextPrefixId)
    (hpreparing : e'.preparing = e.preparing) (hprefixes : e'.prefixes = e.prefixes) :
    StoreStep e e' :=
  .faded hnext hpreparing fun p => by
    rw [hprefixes]
    exact .same _

theorem fades_erase (s : AList fun _ : String => StoredPrefix) (p q : String) :
    Fades (s.lookup p) ((s.erase q).lookup p) := by
  by_cases hp : p = q
  · subst hp
    rw [AList.lookup_erase]
    exact .gone _
  · rw [AList.lookup_erase_ne hp]
    exact .same _

theorem fades_break (s : AList fun _ : String => StoredPrefix) {q : String} {data : PrefixData}
    (hq : s.lookup q = some (.ready data)) (cause : RunErrorPayload) (p : String) :
    Fades (s.lookup p) ((s.insert q (.broken cause)).lookup p) := by
  by_cases hp : p = q
  · subst hp
    rw [hq, AList.lookup_insert]
    exact .breaks data cause
  · rw [AList.lookup_insert_ne hp]
    exact .same _

theorem storeStep_step (cfg : WarmConfig) (e : EngineState F) (op : EngineOp F) :
    StoreStep e (e.step cfg op) := by
  have hstill : StoreStep e e := .unmoved rfl rfl rfl
  cases op with
  | takeId code filename globals imports => exact .taken _ rfl rfl rfl rfl
  | insertPrefix k =>
    show StoreStep e (e.insertPrefix k)
    unfold EngineState.insertPrefix
    split
    · next data hk => exact .stored k data hk rfl rfl rfl
    · exact hstill
  | disposePrefix p => exact .faded rfl rfl fun q => fades_erase e.prefixes q p
  | lookup req =>
    show StoreStep e (e.lookup req)
    unfold EngineState.lookup
    split
    · split
      · exact hstill
      · split
        · exact hstill
        · exact .unmoved rfl rfl rfl
    · exact hstill
    · exact hstill
  | acquire k r spawn util =>
    show StoreStep e (e.acquire cfg k r spawn util)
    unfold EngineState.acquire
    split
    · exact .unmoved rfl rfl rfl
    · exact hstill
  | markBroken k raw =>
    show StoreStep e (e.markBroken k raw)
    unfold EngineState.markBroken
    split
    · split
      · next hready => exact .faded rfl rfl fun q => fades_break e.prefixes hready _ q
      · exact hstill
      · exact hstill
    · exact hstill
  | release k report r =>
    show StoreStep e (e.release cfg k report r)
    unfold EngineState.release
    split
    · next run hrun =>
      obtain ⟨p, taken⟩ := run
      cases taken with
      | pooled id => exact .unmoved rfl rfl rfl
      | cold => exact .unmoved rfl rfl rfl
    · exact hstill
  | reserveOneoff runCapBytes r => exact .unmoved rfl rfl rfl
  | releaseOneoff tainted wallMs cpuMs r =>
    show StoreStep e (e.releaseOneoff cfg tainted wallMs cpuMs r)
    unfold EngineState.releaseOneoff
    split
    · exact hstill
    · exact .unmoved rfl rfl rfl

/-! ### The numbers -/

theorem numbered_new : (EngineState.new F).Numbered where
  below _ hd := absurd hd List.not_mem_nil
  distinct := List.nodup_nil
  unstored _ hd := absurd hd List.not_mem_nil
  stored _ hp := absurd rfl hp

theorem ne_of_mem_eraseIdx {l : List PrefixData} {k : Nat} {data : PrefixData}
    (hnodup : (l.map PrefixData.id).Nodup) (hk : l[k]? = some data) :
    ∀ d ∈ l.eraseIdx k, d.id ≠ data.id := by
  obtain ⟨hlt, rfl⟩ := List.getElem?_eq_some_iff.mp hk
  have hperm : ((l[k] :: l.eraseIdx k).map PrefixData.id).Perm (l.map PrefixData.id) :=
    (List.getElem_cons_eraseIdx_perm hlt).map _
  have hcons := hperm.nodup_iff.mpr hnodup
  intro d hd heq
  exact (List.nodup_cons.mp hcons).1 (heq ▸ List.mem_map_of_mem hd)

/-- An id that has been stored stays so. -/
theorem StoreStep.issued (hstep : StoreStep e e') {p : String} (h : e.Issued p) : e'.Issued p := by
  obtain ⟨n, hn, hp, hother⟩ := h
  cases hstep with
  | taken data hid hnext hpreparing hprefixes =>
    refine ⟨n, by omega, hp, fun d hd => ?_⟩
    rw [hpreparing] at hd
    rcases List.mem_append.mp hd with hd | hd
    · exact hother d hd
    · obtain rfl := List.mem_singleton.mp hd
      omega
  | stored k data hk hnext hpreparing hprefixes =>
    refine ⟨n, by omega, hp, fun d hd => ?_⟩
    rw [hpreparing] at hd
    exact hother d (List.mem_of_mem_eraseIdx hd)
  | faded hnext hpreparing hfades =>
    refine ⟨n, by omega, hp, fun d hd => ?_⟩
    rw [hpreparing] at hd
    exact hother d hd

theorem StoreStep.numbered (hstep : StoreStep e e') (h : e.Numbered) : e'.Numbered := by
  have hissued : ∀ p, e.Issued p → e'.Issued p := fun p hp => hstep.issued hp
  cases hstep with
  | taken data hid hnext hpreparing hprefixes =>
    -- The number taken is above every other, so no entry is stored under it.
    have hfresh : e.prefixes.lookup (toString data.id) = none := by
      by_contra hstored
      obtain ⟨n, hn, heq, -⟩ := h.stored _ hstored
      have := natToString_injective heq
      omega
    refine ⟨?_, ?_, ?_, ?_⟩
    · intro d hd
      rw [hpreparing] at hd
      rcases List.mem_append.mp hd with hd | hd
      · have := h.below d hd
        omega
      · obtain rfl := List.mem_singleton.mp hd
        omega
    · rw [hpreparing, List.map_append]
      refine List.nodup_append.mpr ⟨h.distinct, List.nodup_singleton _, ?_⟩
      intro a ha b hb hab
      obtain ⟨d, hd, rfl⟩ := List.mem_map.mp ha
      have hb : b = data.id := List.mem_singleton.mp hb
      have := h.below d hd
      omega
    · intro d hd
      rw [hprefixes]
      rw [hpreparing] at hd
      rcases List.mem_append.mp hd with hd | hd
      · exact h.unstored d hd
      · obtain rfl := List.mem_singleton.mp hd
        exact hfresh
    · intro p hp
      rw [hprefixes] at hp
      exact hissued p (h.stored p hp)
  | stored k data hk hnext hpreparing hprefixes =>
    have hother := ne_of_mem_eraseIdx h.distinct hk
    refine ⟨?_, ?_, ?_, ?_⟩
    · intro d hd
      rw [hpreparing] at hd
      rw [hnext]
      exact h.below d (List.mem_of_mem_eraseIdx hd)
    · rw [hpreparing]
      exact h.distinct.sublist ((List.eraseIdx_sublist _ _).map _)
    · intro d hd
      rw [hpreparing] at hd
      have hne : toString d.id ≠ toString data.id := fun heq =>
        hother d hd (natToString_injective heq)
      rw [hprefixes, AList.lookup_insert_ne hne]
      exact h.unstored d (List.mem_of_mem_eraseIdx hd)
    · intro p hp
      by_cases heq : p = toString data.id
      · refine ⟨data.id, ?_, heq, ?_⟩
        · rw [hnext]
          exact h.below data (List.mem_of_getElem? hk)
        · rw [hpreparing]
          exact hother
      · rw [hprefixes, AList.lookup_insert_ne heq] at hp
        exact hissued p (h.stored p hp)
  | faded hnext hpreparing hfades =>
    refine ⟨?_, ?_, ?_, ?_⟩
    · rw [hnext, hpreparing]
      exact h.below
    · rw [hpreparing]
      exact h.distinct
    · intro d hd
      rw [hpreparing] at hd
      have hfade := hfades (toString d.id)
      rw [h.unstored d hd] at hfade
      exact hfade.of_none
    · intro p hp
      obtain ⟨y, hy⟩ := Option.ne_none_iff_exists'.mp hp
      have hfade := hfades p
      rw [hy] at hfade
      exact hissued p (h.stored p hfade.of_stored)

/-- Under an id that has been stored nothing is stored again. -/
theorem StoreStep.fades (hstep : StoreStep e e') {p : String} (h : e.Issued p) :
    Fades (e.prefixes.lookup p) (e'.prefixes.lookup p) := by
  cases hstep with
  | taken data hid hnext hpreparing hprefixes =>
    rw [hprefixes]
    exact .same _
  | stored k data hk hnext hpreparing hprefixes =>
    obtain ⟨n, hn, rfl, hother⟩ := h
    have hne : toString n ≠ toString data.id := fun heq =>
      hother data (List.mem_of_getElem? hk) (natToString_injective heq).symm
    rw [hprefixes, AList.lookup_insert_ne hne]
    exact .same _
  | faded hnext hpreparing hfades => exact hfades p

/-! ### Runs -/

theorem numbered_exec (h : e.Numbered) (ops : List (EngineOp F)) :
    (Execution.exec (EngineState.step cfg) e ops).Numbered :=
  Execution.exec_invariant (fun e op hnum => (storeStep_step cfg e op).numbered hnum) h ops

/-- Whatever runs, a stored entry only fades. -/
theorem fades_exec (cfg : WarmConfig) {p : String} (hp : e.Issued p) (ops : List (EngineOp F)) :
    (Execution.exec (EngineState.step cfg) e ops).Issued p ∧
      Fades (e.prefixes.lookup p)
        ((Execution.exec (EngineState.step cfg) e ops).prefixes.lookup p) := by
  induction ops generalizing e with
  | nil => exact ⟨hp, .same _⟩
  | cons op ops ih =>
    have hstep := storeStep_step cfg e op
    obtain ⟨hissued, hfades⟩ := ih (hstep.issued hp)
    exact ⟨hissued, (hstep.fades hp).trans hfades⟩

theorem sound_exec (cfg : WarmConfig) (ops : List (EngineOp F)) :
    (Execution.exec (EngineState.step cfg) (.new F) ops).Sound :=
  Execution.exec_invariant (sound_step cfg) sound_new ops

theorem prefixAlive_false {p : String} (h : ∀ data, e.prefixes.lookup p ≠ some (.ready data)) :
    e.prefixAlive p = false := by
  unfold EngineState.prefixAlive
  cases hentry : e.prefixes.lookup p with
  | none => rfl
  | some entry =>
    cases entry with
    | ready data => exact absurd hentry (h data)
    | broken cause => rfl

/-- Between any two critical sections: every instance of a prefix that is not ready serves a
run, a broken prefix keeps its cause for as long as it is stored, and a stored prefix that is
disposed, or found gone, stays gone. -/
theorem disposed_prefixes_idle (cfg : WarmConfig) (ops : List (EngineOp F)) :
    let step := EngineState.step cfg
    let e := Execution.exec step (.new F) ops
    (∀ f ∈ e.warm.records, (∀ data, e.prefixes.lookup f.1 ≠ some (.ready data)) →
        f.2.inFlight ≠ 0) ∧
      (∀ p cause later, e.prefixes.lookup p = some (.broken cause) →
        let e' := Execution.exec step e later
        e'.prefixes.lookup p = some (.broken cause) ∨ e'.prefixes.lookup p = none) ∧
      (∀ p later, e.prefixes.lookup p ≠ none →
        (Execution.exec step (e.disposePrefix p) later).prefixes.lookup p = none) ∧
      ∀ p later later', e.prefixes.lookup p ≠ none →
        (Execution.exec step e later).prefixes.lookup p = none →
        (Execution.exec step (Execution.exec step e later) later').prefixes.lookup p = none := by
  intro step e
  have hsound : e.Sound := sound_exec cfg ops
  have hnum : e.Numbered := numbered_exec numbered_new ops
  have hgone : ∀ p later later', e.prefixes.lookup p ≠ none →
      (Execution.exec step e later).prefixes.lookup p = none →
      (Execution.exec step (Execution.exec step e later) later').prefixes.lookup p = none := by
    intro p later later' hstored hnone
    obtain ⟨hissued, -⟩ := fades_exec cfg (hnum.stored p hstored) later
    obtain ⟨-, hfades⟩ := fades_exec cfg hissued later'
    rw [hnone] at hfades
    exact hfades.of_none
  refine ⟨?_, ?_, ?_, hgone⟩
  · intro f hf hready
    have hheld : (f.1, f.2.id) ∈ e.out :=
      hsound.held f.card (mem_cards.mpr ⟨f, hf, rfl⟩) (prefixAlive_false hready)
    exact (Books.card_held hsound.books hf).mpr hheld
  · intro p cause later hbroken
    have hissued : e.Issued p := hnum.stored p (by rw [hbroken]; exact Option.some_ne_none _)
    obtain ⟨-, hfades⟩ := fades_exec cfg hissued later
    rw [hbroken] at hfades
    exact hfades.of_broken
  · intro p later hstored
    exact hgone p [.disposePrefix p] later hstored (AList.lookup_erase p e.prefixes)

end Life

end Iso4
