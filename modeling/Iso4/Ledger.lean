/-
The registry's ledger invariant.

The registry keeps `total`, `oneoffRunning` and `idleTotal` beside the records
they count and patches them by hand in every operation.  `Books` says what they
have to equal, against two histories the registry itself does not keep: the
attachments handed out and not yet released (`out`) and the number of one-off
reservations not yet released (`oneoffs`).

Each operation is a handful of primitive bookings on the list of records —
attach a run, pool a spawned instance, retire an idle or a drained record — and
each booking keeps the books (`Books.attach`, `Books.push`, `Books.retire`, …).
The operations are then read off as sequences of bookings, and
`registry_books` is the invariant over every run.
-/
import Iso4.Registry
import Iso4.Lib.Execution
import Mathlib.Data.List.Perm.Basic

namespace Iso4

/-- A record under the prefix it is filed under. -/
abbrev Filed := String × Instance

/-- The books of a registry: what its counters have to equal. -/
structure Books (recs : List Filed) (total oneoffRunning idleTotal next : Nat) (saturated : Bool)
    (out : List (String × Nat)) (oneoffs : Nat) : Prop where
  total : total = recs.length + oneoffs
  oneoff : oneoffRunning = oneoffs
  idle : idleTotal = recs.countP fun r => r.2.isIdle
  dead : ∀ r ∈ recs, r.2.dead = true → 0 < r.2.inFlight
  inFlight : ∀ r ∈ recs, r.2.inFlight = out.count (r.1, r.2.id)
  held : ∀ a ∈ out, ∃ r ∈ recs, (r.1, r.2.id) = a
  ids : (recs.map fun r => r.2.id).Nodup
  fresh : ∀ r ∈ recs, r.2.id < next
  unsaturated : saturated = false

namespace Books

variable {recs recs' : List Filed} {total oneoffRunning idleTotal next oneoffs : Nat}
  {saturated : Bool} {out : List (String × Nat)}

theorem perm (h : Books recs total oneoffRunning idleTotal next saturated out oneoffs)
    (hp : recs.Perm recs') : Books recs' total oneoffRunning idleTotal next saturated out oneoffs where
  total := by rw [h.total, hp.length_eq]
  oneoff := h.oneoff
  idle := by rw [h.idle, hp.countP_eq]
  dead r hr := h.dead r (hp.mem_iff.mpr hr)
  inFlight r hr := h.inFlight r (hp.mem_iff.mpr hr)
  held a ha := by
    obtain ⟨r, hr, e⟩ := h.held a ha
    exact ⟨r, hp.mem_iff.mp hr, e⟩
  ids := (hp.map _).nodup_iff.mp h.ids
  fresh r hr := h.fresh r (hp.mem_iff.mpr hr)
  unsaturated := h.unsaturated

theorem permOut {out' : List (String × Nat)}
    (h : Books recs total oneoffRunning idleTotal next saturated out oneoffs) (hp : out.Perm out') :
    Books recs total oneoffRunning idleTotal next saturated out' oneoffs :=
  { h with
    inFlight := fun r hr => by rw [h.inFlight r hr, hp.count_eq]
    held := fun a ha => h.held a (hp.mem_iff.mpr ha) }

/-- The key of the head record occurs in no other record. -/
theorem key_ne {f : Filed} (h : Books (f :: recs) total oneoffRunning idleTotal next saturated out oneoffs) :
    ∀ r ∈ recs, r.2.id ≠ f.2.id := by
  intro r hr e
  have hn := h.ids
  rw [List.map_cons, List.nodup_cons] at hn
  exact hn.1 (List.mem_map.mpr ⟨r, hr, e⟩)

/-- Book one more run on a live record. -/
theorem attach {p : String} {i : Instance} (hlive : i.dead = false)
    (h : Books ((p, i) :: recs) total oneoffRunning idleTotal next saturated out oneoffs) :
    Books ((p, { i with inFlight := i.inFlight + 1 }) :: recs) total oneoffRunning
      (idleTotal - if i.inFlight = 0 then 1 else 0) next saturated ((p, i.id) :: out) oneoffs where
  total := by simpa using h.total
  oneoff := h.oneoff
  idle := by
    have := h.idle
    by_cases h0 : i.inFlight = 0
    · simp [Instance.isIdle, hlive, h0] at this ⊢
      omega
    · simp [Instance.isIdle, hlive, h0] at this ⊢
      omega
  dead r hr hd := by
    rcases List.mem_cons.mp hr with rfl | hr
    · simp
    · exact h.dead r (List.mem_cons_of_mem _ hr) hd
  inFlight r hr := by
    rcases List.mem_cons.mp hr with rfl | hr
    · simpa using h.inFlight (p, i) List.mem_cons_self
    · have hne := h.key_ne r hr
      rw [List.count_cons_of_ne (fun e => hne (Prod.mk.inj e).2.symm)]
      exact h.inFlight r (List.mem_cons_of_mem _ hr)
  held a ha := by
    rcases List.mem_cons.mp ha with rfl | ha
    · exact ⟨_, List.mem_cons_self, rfl⟩
    · obtain ⟨r, hr, e⟩ := h.held a ha
      rcases List.mem_cons.mp hr with rfl | hr
      · exact ⟨_, List.mem_cons_self, e⟩
      · exact ⟨r, List.mem_cons_of_mem _ hr, e⟩
  ids := by simpa using h.ids
  fresh r hr := by
    rcases List.mem_cons.mp hr with rfl | hr
    · exact h.fresh (p, i) List.mem_cons_self
    · exact h.fresh r (List.mem_cons_of_mem _ hr)
  unsaturated := h.unsaturated

/-- Pool a spawned instance under the next id, with one run attached. -/
theorem push {p : String} {i : Instance} (hid : i.id = next) (hrun : i.inFlight = 1)
    (h : Books recs total oneoffRunning idleTotal next saturated out oneoffs) :
    Books ((p, i) :: recs) (total + 1) oneoffRunning idleTotal (next + 1) saturated
      ((p, i.id) :: out) oneoffs where
  total := by
    rw [h.total, List.length_cons]
    omega
  oneoff := h.oneoff
  idle := by simp [h.idle, Instance.isIdle, hrun]
  dead r hr hd := by
    rcases List.mem_cons.mp hr with rfl | hr
    · simp [hrun]
    · exact h.dead r hr hd
  inFlight r hr := by
    rcases List.mem_cons.mp hr with rfl | hr
    · -- Nobody can hold an attachment to an id that was never handed out.
      have hnone : out.count (p, i.id) = 0 := by
        rw [List.count_eq_zero]
        intro hmem
        obtain ⟨r, hr, e⟩ := h.held _ hmem
        have := h.fresh r hr
        have := (Prod.mk.inj e).2
        omega
      simp [hrun, hnone]
    · have hne : r.2.id ≠ i.id := by
        have := h.fresh r hr
        omega
      rw [List.count_cons_of_ne (fun e => hne (Prod.mk.inj e).2.symm)]
      exact h.inFlight r hr
  held a ha := by
    rcases List.mem_cons.mp ha with rfl | ha
    · exact ⟨_, List.mem_cons_self, rfl⟩
    · obtain ⟨r, hr, e⟩ := h.held a ha
      exact ⟨r, List.mem_cons_of_mem _ hr, e⟩
  ids := by
    rw [List.map_cons, List.nodup_cons]
    refine ⟨fun hm => ?_, h.ids⟩
    obtain ⟨r, hr, e⟩ := List.mem_map.mp hm
    have := h.fresh r hr
    have e : r.2.id = i.id := e
    omega
  fresh r hr := by
    rcases List.mem_cons.mp hr with rfl | hr
    · show i.id < next + 1
      omega
    · have := h.fresh r hr
      omega
  unsaturated := h.unsaturated

/-- Book one run off a record that stays. -/
theorem detach {p : String} {i j : Instance} (hid : j.id = i.id)
    (hrun : j.inFlight + 1 = i.inFlight) (hdead : j.dead = true → 0 < j.inFlight)
    (h : Books ((p, i) :: recs) total oneoffRunning idleTotal next saturated ((p, i.id) :: out)
      oneoffs) :
    Books ((p, j) :: recs) total oneoffRunning (idleTotal + if j.isIdle then 1 else 0) next
      saturated out oneoffs where
  total := by simpa using h.total
  oneoff := h.oneoff
  idle := by
    have hi : i.isIdle = false := by simp [Instance.isIdle]; omega
    have := h.idle
    simp only [List.countP_cons, hi] at this ⊢
    simp [this]
  dead r hr hd := by
    rcases List.mem_cons.mp hr with rfl | hr
    · exact hdead hd
    · exact h.dead r (List.mem_cons_of_mem _ hr) hd
  inFlight r hr := by
    rcases List.mem_cons.mp hr with rfl | hr
    · have := h.inFlight (p, i) List.mem_cons_self
      simp only [List.count_cons_self] at this
      simp only [hid]
      omega
    · have hne := h.key_ne r hr
      have := h.inFlight r (List.mem_cons_of_mem _ hr)
      rwa [List.count_cons_of_ne (fun e => hne (Prod.mk.inj e).2.symm)] at this
  held a ha := by
    obtain ⟨r, hr, e⟩ := h.held a (List.mem_cons_of_mem _ ha)
    rcases List.mem_cons.mp hr with rfl | hr
    · exact ⟨_, List.mem_cons_self, by rw [← e]; simp [hid]⟩
    · exact ⟨r, List.mem_cons_of_mem _ hr, e⟩
  ids := by simpa [hid] using h.ids
  fresh r hr := by
    rcases List.mem_cons.mp hr with rfl | hr
    · simpa [hid] using h.fresh (p, i) List.mem_cons_self
    · exact h.fresh r (List.mem_cons_of_mem _ hr)
  unsaturated := h.unsaturated

/-- Drop a record no run is attached to. -/
theorem retire {p : String} {i : Instance} (hrun : i.inFlight = 0)
    (h : Books ((p, i) :: recs) total oneoffRunning idleTotal next saturated out oneoffs) :
    Books recs (total - 1) oneoffRunning (idleTotal - 1) next saturated out oneoffs where
  total := by
    rw [h.total, List.length_cons]
    omega
  oneoff := h.oneoff
  idle := by
    have hd : i.dead = false := by
      by_contra hd
      have := h.dead (p, i) List.mem_cons_self (by simpa using hd)
      simp [hrun] at this
    rw [h.idle]
    simp [Instance.isIdle, hrun, hd]
  dead r hr hd := h.dead r (List.mem_cons_of_mem _ hr) hd
  inFlight r hr := h.inFlight r (List.mem_cons_of_mem _ hr)
  held a ha := by
    obtain ⟨r, hr, e⟩ := h.held a ha
    rcases List.mem_cons.mp hr with rfl | hr
    · have := h.inFlight (p, i) List.mem_cons_self
      have hpos : 0 < out.count (p, i.id) := List.count_pos_iff.mpr (by rw [e]; exact ha)
      simp only at this
      omega
    · exact ⟨r, hr, e⟩
  ids := by
    have := h.ids
    rw [List.map_cons, List.nodup_cons] at this
    exact this.2
  fresh r hr := h.fresh r (List.mem_cons_of_mem _ hr)
  unsaturated := h.unsaturated

/-- A record without runs is idle, so both counters have room to drop it. -/
theorem retire_room {p : String} {i : Instance} (hrun : i.inFlight = 0)
    (h : Books ((p, i) :: recs) total oneoffRunning idleTotal next saturated out oneoffs) :
    0 < total ∧ 0 < idleTotal := by
  have hd : i.dead = false := by
    by_contra hd
    have := h.dead (p, i) List.mem_cons_self (by simpa using hd)
    simp [hrun] at this
  refine ⟨by rw [h.total, List.length_cons]; omega, ?_⟩
  rw [h.idle]
  simp [Instance.isIdle, hrun, hd]

/-- Drop a record together with the last run attached to it. -/
theorem detachLast {p : String} {i : Instance} (hrun : i.inFlight = 1)
    (h : Books ((p, i) :: recs) total oneoffRunning idleTotal next saturated ((p, i.id) :: out)
      oneoffs) :
    Books recs (total - 1) oneoffRunning idleTotal next saturated out oneoffs where
  total := by
    rw [h.total, List.length_cons]
    omega
  oneoff := h.oneoff
  idle := by rw [h.idle]; simp [Instance.isIdle, hrun]
  dead r hr hd := h.dead r (List.mem_cons_of_mem _ hr) hd
  inFlight r hr := by
    have hne := h.key_ne r hr
    have := h.inFlight r (List.mem_cons_of_mem _ hr)
    rwa [List.count_cons_of_ne (fun e => hne (Prod.mk.inj e).2.symm)] at this
  held a ha := by
    obtain ⟨r, hr, e⟩ := h.held a (List.mem_cons_of_mem _ ha)
    rcases List.mem_cons.mp hr with rfl | hr
    · have := h.inFlight (p, i) List.mem_cons_self
      have hpos : 0 < out.count (p, i.id) := List.count_pos_iff.mpr (by rw [e]; exact ha)
      simp only [List.count_cons_self] at this
      omega
    · exact ⟨r, hr, e⟩
  ids := by
    have := h.ids
    rw [List.map_cons, List.nodup_cons] at this
    exact this.2
  fresh r hr := h.fresh r (List.mem_cons_of_mem _ hr)
  unsaturated := h.unsaturated

/-- Mark a record dead while runs are attached to it. -/
theorem kill {p : String} {i : Instance} (hrun : i.inFlight ≠ 0)
    (h : Books ((p, i) :: recs) total oneoffRunning idleTotal next saturated out oneoffs) :
    Books ((p, { i with dead := true }) :: recs) total oneoffRunning idleTotal next saturated out
      oneoffs where
  total := by simpa using h.total
  oneoff := h.oneoff
  idle := by rw [h.idle]; simp [Instance.isIdle, hrun]
  dead r hr hd := by
    rcases List.mem_cons.mp hr with rfl | hr
    · exact Nat.pos_of_ne_zero hrun
    · exact h.dead r (List.mem_cons_of_mem _ hr) hd
  inFlight r hr := by
    rcases List.mem_cons.mp hr with rfl | hr
    · exact h.inFlight (p, i) List.mem_cons_self
    · exact h.inFlight r (List.mem_cons_of_mem _ hr)
  held a ha := by
    obtain ⟨r, hr, e⟩ := h.held a ha
    rcases List.mem_cons.mp hr with rfl | hr
    · exact ⟨_, List.mem_cons_self, e⟩
    · exact ⟨r, List.mem_cons_of_mem _ hr, e⟩
  ids := by simpa using h.ids
  fresh r hr := by
    rcases List.mem_cons.mp hr with rfl | hr
    · exact h.fresh (p, i) List.mem_cons_self
    · exact h.fresh r (List.mem_cons_of_mem _ hr)
  unsaturated := h.unsaturated

/-- Reserve a one-off. -/
theorem reserve (h : Books recs total oneoffRunning idleTotal next saturated out oneoffs) :
    Books recs (total + 1) (oneoffRunning + 1) idleTotal next saturated out (oneoffs + 1) :=
  { h with total := by rw [h.total]; omega, oneoff := by rw [h.oneoff] }

/-- Give a one-off back. -/
theorem unreserve (h : Books recs total oneoffRunning idleTotal next saturated out (oneoffs + 1)) :
    Books recs (total - 1) (oneoffRunning - 1) idleTotal next saturated out oneoffs :=
  { h with total := by rw [h.total]; omega, oneoff := by rw [h.oneoff]; rfl }

/-- Mark every record of a prefix dead and drop those without runs. -/
theorem dispose {p : String} (l : List Instance)
    (h : Books (l.map (Prod.mk p) ++ recs) total oneoffRunning idleTotal next saturated out oneoffs) :
    let marked : List Instance := l.map fun i => { i with dead := true }
    let gone := (marked.filter fun i => i.inFlight = 0).length
    Books ((marked.filter fun i => i.inFlight ≠ 0).map (Prod.mk p) ++ recs) (total - gone)
        oneoffRunning (idleTotal - gone) next saturated out oneoffs ∧
      gone ≤ total ∧ gone ≤ idleTotal := by
  induction l generalizing recs total idleTotal with
  | nil => exact ⟨h, Nat.zero_le _, Nat.zero_le _⟩
  | cons i l ih =>
    by_cases h0 : i.inFlight = 0
    · obtain ⟨hbooks, ht, hi⟩ := ih (Books.retire h0 h)
      obtain ⟨hroomT, hroomI⟩ := Books.retire_room h0 h
      simp only [List.map_cons, h0, ne_eq, not_true_eq_false, decide_false, Bool.false_eq_true,
        not_false_eq_true, List.filter_cons_of_neg, decide_true, List.filter_cons_of_pos,
        List.length_cons]
      refine ⟨?_, by omega, by omega⟩
      rwa [Nat.sub_sub, Nat.sub_sub, Nat.add_comm 1] at hbooks
    · -- The busy record stays: move it behind the rest and go on.
      have hmoved := (Books.kill h0 h).perm (@List.perm_middle _ _ (l.map (Prod.mk p)) _).symm
      obtain ⟨hbooks, ht, hi⟩ := ih hmoved
      simp only [List.map_cons, h0, ne_eq, not_false_eq_true, decide_true, List.filter_cons_of_pos,
        decide_false, Bool.false_eq_true, List.filter_cons_of_neg]
      exact ⟨hbooks.perm List.perm_middle, ht, hi⟩

end Books

section Registry

set_option linter.unusedSectionVars false

variable {F : Type} [F64 F] {s : RegistryInner F} {out : List (String × Nat)} {oneoffs : Nat}

/-! ### The records of a prefix map -/

/-- The records of every prefix. -/
def filed (entries : List (Σ _ : String, PrefixEntry F)) : List Filed :=
  entries.flatMap fun e => e.2.instances.map (Prod.mk e.1)

def RegistryInner.records (s : RegistryInner F) : List Filed := filed s.prefixes.entries

/-- The records of every other prefix. -/
def RegistryInner.others (s : RegistryInner F) (p : String) : List Filed :=
  filed (s.prefixes.entries.kerase p)

theorem records_putEntry (s : RegistryInner F) (p : String) (e : PrefixEntry F) :
    (s.putEntry p e).records = e.instances.map (Prod.mk p) ++ s.others p := rfl

theorem records_putEntry_putEntry (s : RegistryInner F) (p : String) (e e' : PrefixEntry F) :
    ((s.putEntry p e).putEntry p e').records = e'.instances.map (Prod.mk p) ++ s.others p := by
  simp [RegistryInner.putEntry, RegistryInner.records, RegistryInner.others, filed]

theorem records_perm_of_lookup {p : String} {e : PrefixEntry F} (h : s.prefixes.lookup p = some e) :
    s.records.Perm (e.instances.map (Prod.mk p) ++ s.others p) := by
  have hmem := AList.mem_lookup_iff.mp h
  have hp : s.prefixes.entries.Perm (⟨p, e⟩ :: s.prefixes.entries.kerase p) := by
    obtain ⟨e', l₁, l₂, hnot, hsplit, herase⟩ :=
      List.exists_of_kerase (List.mem_keys_of_mem hmem)
    -- The keys are distinct, so the entry `kerase` found is the one looked up.
    have he : e' = e := by
      have hnd := s.prefixes.nodupKeys
      have h' : (⟨p, e'⟩ : Σ _ : String, PrefixEntry F) ∈ s.prefixes.entries := by
        rw [hsplit]
        simp
      have := AList.mem_lookup_iff.mpr h'
      rw [h] at this
      exact (Option.some.inj this).symm
    rw [herase, hsplit, he]
    exact List.perm_middle
  exact hp.flatMap_right _

theorem records_perm (s : RegistryInner F) (p : String) :
    s.records.Perm ((s.entryOrDefault p).instances.map (Prod.mk p) ++ s.others p) := by
  unfold RegistryInner.entryOrDefault
  cases h : s.prefixes.lookup p with
  | some e => exact records_perm_of_lookup h
  | none =>
    have hnot := AList.lookup_eq_none.mp h
    rw [RegistryInner.others, List.kerase_of_notMem_keys hnot]
    exact .refl _

/-- One record brought to the front. -/
theorem focus {p : String} {l : List Instance} {pos : Nat} {i : Instance} (h : l[pos]? = some i)
    (rest : List Filed) :
    (l.map (Prod.mk p) ++ rest).Perm ((p, i) :: ((l.eraseIdx pos).map (Prod.mk p) ++ rest)) := by
  obtain ⟨hlt, rfl⟩ := List.getElem?_eq_some_iff.mp h
  exact ((List.getElem_cons_eraseIdx_perm hlt).symm.map (Prod.mk p)).append_right rest

/-- A record written over another, brought to the front. -/
theorem focus_set {p : String} {l : List Instance} {pos : Nat} {i j : Instance}
    (h : l[pos]? = some i) (rest : List Filed) :
    ((p, j) :: ((l.eraseIdx pos).map (Prod.mk p) ++ rest)).Perm
      ((l.set pos j).map (Prod.mk p) ++ rest) := by
  obtain ⟨hlt, rfl⟩ := List.getElem?_eq_some_iff.mp h
  exact ((List.set_perm_cons_eraseIdx hlt j).symm.map (Prod.mk p)).append_right rest

/-! ### The books of a registry -/

/-- The counters of `s` agree with its records, the attachments `out` and the
reservations `oneoffs`. -/
def RegistryInner.Balanced (s : RegistryInner F) (out : List (String × Nat)) (oneoffs : Nat) :
    Prop :=
  Books s.records s.total s.oneoffRunning s.idleTotal s.nextInstanceId s.saturated out oneoffs

/-- The books, with the records of one prefix in front. -/
theorem RegistryInner.Balanced.opened {p : String} (h : s.Balanced out oneoffs) :
    Books ((s.entryOrDefault p).instances.map (Prod.mk p) ++ s.others p) s.total s.oneoffRunning
      s.idleTotal s.nextInstanceId s.saturated out oneoffs :=
  Books.perm h (records_perm s p)

/-- Rewriting an entry's statistics leaves the books alone. -/
theorem RegistryInner.Balanced.putEntry {p : String} {e : PrefixEntry F}
    (he : e.instances = (s.entryOrDefault p).instances) (h : s.Balanced out oneoffs) :
    (s.putEntry p e).Balanced out oneoffs := by
  show Books (s.putEntry p e).records _ _ _ _ _ _ _
  rw [records_putEntry, he]
  exact h.opened

theorem balanced_ite {c : Prop} [Decidable c] {t : RegistryInner F} (hs : s.Balanced out oneoffs)
    (ht : t.Balanced out oneoffs) : (if c then s else t).Balanced out oneoffs := by
  split
  · exact hs
  · exact ht

theorem entryOrDefault_putEntry (s : RegistryInner F) (p : String) (e : PrefixEntry F) :
    (s.putEntry p e).entryOrDefault p = e := by
  simp [RegistryInner.putEntry, RegistryInner.entryOrDefault]

/-! ### Shedding -/

theorem mem_idleLocations {order : HashOrder F} {p : String} {i : Instance}
    (h : (p, i) ∈ s.idleLocations order) :
    ∃ e, s.prefixes.lookup p = some e ∧ i ∈ e.instances ∧ i.isIdle = true := by
  obtain ⟨e, he, hi⟩ := List.mem_flatMap.mp h
  obtain ⟨j, hj, hji⟩ := List.mem_map.mp hi
  obtain ⟨rfl, rfl⟩ := Prod.mk.inj hji
  have hmem : e ∈ s.prefixes.entries := (order.perm _).mem_iff.mp he
  obtain ⟨hj, hidle⟩ := List.mem_filter.mp hj
  exact ⟨e.2, AList.mem_lookup_iff.mpr hmem, hj, hidle⟩

/-- Ids are distinct, so retaining the other ids drops exactly one record. -/
theorem perm_filter_id {l : List Instance} {i : Instance} (hn : (l.map Instance.id).Nodup)
    (hi : i ∈ l) : l.Perm (i :: l.filter fun j => j.id ≠ i.id) := by
  induction l with
  | nil => simp at hi
  | cons j l ih =>
    obtain ⟨hj, hl⟩ := List.nodup_cons.mp (by simpa only [List.map_cons] using hn)
    rcases List.mem_cons.mp hi with rfl | hi
    · have hrest : l.filter (fun j => j.id ≠ i.id) = l := by
        rw [List.filter_eq_self]
        intro a ha
        have : a.id ≠ i.id := fun e => hj (List.mem_map.mpr ⟨a, ha, e⟩)
        simpa using this
      rw [List.filter_cons_of_neg (by simp), hrest]
    · have hne : j.id ≠ i.id := fun e => hj (List.mem_map.mpr ⟨i, hi, e.symm⟩)
      rw [List.filter_cons_of_pos (by simpa using hne)]
      exact ((ih hl hi).cons j).trans (List.Perm.swap i j _)

theorem evictScored_balanced {now : Nat} {order : HashOrder F} (h : s.Balanced out oneoffs) :
    (evictScored s now order).1.Balanced out oneoffs := by
  unfold evictScored
  dsimp only
  split
  · exact h
  · split
    · exact h
    · rename_i hloc
      obtain ⟨e, he, hmem, hidle⟩ := mem_idleLocations (List.mem_of_getElem? hloc)
      rename_i p i
      simp only [he]
      have hopen := Books.perm h (records_perm_of_lookup he)
      have hnodup : (e.instances.map Instance.id).Nodup := by
        have := hopen.ids
        rw [List.map_append, List.map_map] at this
        exact (List.nodup_append.mp this).1
      have hfront := hopen.perm (((perm_filter_id hnodup hmem).map (Prod.mk p)).append_right _)
      have hrun : i.inFlight = 0 := by
        simp only [Instance.isIdle, Bool.and_eq_true, decide_eq_true_eq] at hidle
        exact hidle.1
      obtain ⟨ht, hi⟩ := hfront.retire_room hrun
      have hsat : (s.saturated || decide (s.total < 1) || decide (s.idleTotal < 1)) = s.saturated := by
        simp only [Nat.lt_one_iff, Nat.pos_iff_ne_zero.mp ht, Nat.pos_iff_ne_zero.mp hi,
          decide_false, Bool.or_false]
      show Books _ (s.total - 1) s.oneoffRunning (s.idleTotal - 1) s.nextInstanceId
        (s.saturated || decide (s.total < 1) || decide (s.idleTotal < 1)) out oneoffs
      rw [hsat]
      exact hfront.retire hrun

theorem shed_balanced {now : Nat} {order : HashOrder F} (n : Nat) (h : s.Balanced out oneoffs) :
    (shed now order n s).1.Balanced out oneoffs := by
  induction n generalizing s with
  | zero => exact h
  | succ n ih =>
    have hone : (evictScored s now order).1.Balanced out oneoffs := evictScored_balanced h
    unfold shed
    split
    · rename_i hev
      rwa [hev] at hone
    · rename_i hev
      rw [hev] at hone
      exact ih hone

theorem pressurePass_balanced {usage : Option Nat} {budget now : Nat} {order : HashOrder F}
    (h : s.Balanced out oneoffs) : (pressurePass s usage budget now order).1.Balanced out oneoffs := by
  unfold pressurePass
  split
  · exact h
  · have hshed : ∀ n shedding lastPass,
        (shed now order n { s with shedding, lastPass }).1.Balanced out oneoffs :=
      fun n _ _ => shed_balanced n h
    exact balanced_ite (hshed _ _ _) (hshed _ _ _)

/-! ### acquire -/

/-- A record of the entry about to be written, its run count set. -/
theorem attachAt_books {p : String} {e : PrefixEntry F} {pos : Nat} {i : Instance}
    (hi : e.instances[pos]? = some i) (hlive : i.dead = false)
    (h : (s.putEntry p e).Balanced out oneoffs) :
    Books ((s.putEntry p e).attachAt p e pos i (i.inFlight + 1)).records s.total s.oneoffRunning
      (s.idleTotal - if i.inFlight = 0 then 1 else 0) s.nextInstanceId s.saturated
      ((p, i.id) :: out) oneoffs := by
  have hopen : Books (e.instances.map (Prod.mk p) ++ s.others p) s.total s.oneoffRunning
      s.idleTotal s.nextInstanceId s.saturated out oneoffs := h
  have hbooked := (hopen.perm (focus hi _)).attach hlive
  rw [RegistryInner.attachAt, records_putEntry_putEntry]
  exact hbooked.perm (focus_set hi _)

/-- Attaching to an idle record takes it out of the idle count. -/
theorem attachIdle_balanced {p : String} {e : PrefixEntry F} {pos : Nat} {i : Instance}
    (hi : e.instances[pos]? = some i) (hlive : i.dead = false) (h0 : i.inFlight = 0)
    (h : (s.putEntry p e).Balanced out oneoffs) :
    (((s.putEntry p e).attachAt p e pos i 1).subIdle 1).Balanced ((p, i.id) :: out) oneoffs := by
  have hopen : Books (e.instances.map (Prod.mk p) ++ s.others p) s.total s.oneoffRunning
      s.idleTotal s.nextInstanceId s.saturated out oneoffs := h
  have hroom : 0 < s.idleTotal := ((hopen.perm (focus hi _)).retire_room h0).2
  have hsat : (s.saturated || decide (s.idleTotal < 1)) = s.saturated := by
    rw [decide_eq_false (by omega), Bool.or_false]
  have hbooks := attachAt_books hi hlive h
  rw [if_pos h0, h0] at hbooks
  show Books _ s.total s.oneoffRunning (s.idleTotal - 1) s.nextInstanceId
    (s.saturated || decide (s.idleTotal < 1)) _ _
  rw [hsat]
  exact hbooks

theorem pushSpawned_balanced {p : String} {e : PrefixEntry F} {now : Nat} {caps : HeapCaps}
    (h : (s.putEntry p e).Balanced out oneoffs) :
    ((s.putEntry p e).pushSpawned p e now caps).Balanced ((p, s.nextInstanceId) :: out) oneoffs := by
  have hopen : Books (e.instances.map (Prod.mk p) ++ s.others p) s.total s.oneoffRunning
      s.idleTotal s.nextInstanceId s.saturated out oneoffs := h
  have hpushed := hopen.push (p := p) (i := .spawned s.nextInstanceId now caps) rfl rfl
  show Books ((s.putEntry p e).putEntry p _).records _ _ _ _ _ _ _
  rw [records_putEntry_putEntry]
  refine hpushed.perm ?_
  rw [List.map_append, List.append_assoc]
  exact List.perm_middle.symm

/-- The attachments and reservations after `acquire` answered. -/
def Acquired.book (p : String) (out : List (String × Nat)) (oneoffs : Nat) :
    Acquired → List (String × Nat) × Nat
  | .attached id => ((p, id) :: out, oneoffs)
  | .cold => (out, oneoffs + 1)
  | .refused _ => (out, oneoffs)
  | .spawnFailed _ => (out, oneoffs)

theorem idlePos_spec {l : List Instance} {caps : HeapCaps} {pos : Nat} {i : Instance}
    (h : idlePos l caps = some (pos, i)) : l[pos]? = some i ∧ i.dead = false ∧ i.inFlight = 0 := by
  obtain ⟨hmem, hi⟩ := List.mem_filter.mp (maxBy_mem h)
  simp only [Bool.and_eq_true, Bool.not_eq_true', decide_eq_true_eq] at hi
  exact ⟨mem_enumerate.mp hmem, hi.1.1, hi.1.2⟩

/-- With no idle match, every joinable instance is busy. -/
theorem joinable_busy {l : List Instance} {caps : HeapCaps} {pos : Nat} {i : Instance}
    (hnone : idlePos l caps = none) (h : (pos, i) ∈ joinable l caps) :
    l[pos]? = some i ∧ i.dead = false ∧ i.inFlight ≠ 0 := by
  obtain ⟨hmem, hi⟩ := List.mem_filter.mp h
  simp only [Bool.and_eq_true, Bool.not_eq_true', decide_eq_true_eq] at hi
  refine ⟨mem_enumerate.mp hmem, hi.1, fun h0 => ?_⟩
  have hempty := maxBy_eq_none.mp hnone
  have : (pos, i) ∈ (enumerate l).filter fun p =>
      !p.2.dead && decide (p.2.inFlight = 0) && decide (p.2.caps = caps) :=
    List.mem_filter.mpr ⟨hmem, by simp [hi.1, hi.2, h0]⟩
  rw [hempty] at this
  exact List.not_mem_nil this

theorem acquireFirst_balanced {cfg : WarmConfig} {p : String} {e : PrefixEntry F} {caps : HeapCaps}
    {usage : Option Nat} {admitWarm : Bool} {now : Nat} {spawn : Except String Unit}
    (h : (s.putEntry p e).Balanced out oneoffs) :
    let r := acquireFirst cfg (s.putEntry p e) p e caps usage admitWarm now spawn
    r.1.Balanced (r.2.book p out oneoffs).1 (r.2.book p out oneoffs).2 := by
  unfold acquireFirst
  split
  · exact h
  · split
    · exact h
    · split
      · exact Books.reserve h
      · exact pushSpawned_balanced h

theorem acquireJoin_balanced {cfg : WarmConfig} {p : String} {e : PrefixEntry F} {caps : HeapCaps}
    {usage : Option Nat} {admitWarm : Bool} {now : Nat} {spawn : Except String Unit}
    {util : Nat → Nat} (hnone : idlePos e.instances caps = none)
    (h : (s.putEntry p e).Balanced out oneoffs) :
    let r := acquireJoin cfg (s.putEntry p e) p e caps usage admitWarm now spawn util
    r.1.Balanced (r.2.book p out oneoffs).1 (r.2.book p out oneoffs).2 := by
  unfold acquireJoin
  dsimp only
  split
  · rename_i pos i hpick
    obtain ⟨k, -, hk⟩ := Option.bind_eq_some_iff.mp hpick
    obtain ⟨hi, hlive, hbusy⟩ := joinable_busy hnone (List.mem_of_getElem? hk)
    have := attachAt_books hi hlive h
    rwa [if_neg hbusy] at this
  · split
    · exact h
    · exact pushSpawned_balanced h

theorem acquire_balanced {cfg : WarmConfig} {p : String} {caps : HeapCaps} {r : Reading F}
    {spawn : Except String Unit} {util : Nat → Nat} (h : s.Balanced out oneoffs) :
    let r := acquire cfg s p caps r spawn util
    r.1.Balanced (r.2.book p out oneoffs).1 (r.2.book p out oneoffs).2 := by
  unfold acquire
  dsimp only
  have hpass : (pressurePass s (sampleUsage cfg r.usage) cfg.warmBudgetBytes r.passNow
      r.order).1.Balanced out oneoffs := pressurePass_balanced h
  -- The entry is written back with the same records and newer statistics.
  have hput := fun d => hpass.putEntry (p := p)
    (e := { (RegistryInner.entryOrDefault _ p) with demand := d }) rfl
  split
  · rename_i pos i hidle
    obtain ⟨hi, hlive, h0⟩ := idlePos_spec hidle
    exact attachIdle_balanced hi hlive h0 (hput _)
  · rename_i hidle
    split
    · exact acquireFirst_balanced (hput _)
    · exact acquireJoin_balanced hidle (hput _)

/-! ### release -/

theorem entryOrDefault_of_lookup {p : String} {e : PrefixEntry F}
    (h : s.prefixes.lookup p = some e) : s.entryOrDefault p = e := by
  rw [RegistryInner.entryOrDefault, h, Option.getD_some]

/-- The records filed under `p` are those of the entry of `p`. -/
theorem lookup_of_mem_records {r : Filed} (h : r ∈ s.records) :
    ∃ e, s.prefixes.lookup r.1 = some e ∧ r.2 ∈ e.instances := by
  obtain ⟨e, he, hr⟩ := List.mem_flatMap.mp h
  obtain ⟨i, hi, rfl⟩ := List.mem_map.mp hr
  exact ⟨e.2, AList.mem_lookup_iff.mpr he, hi⟩

theorem noteSlotSample_balanced {cfg : WarmConfig} {p : Option String} {wallMs cpuMs : F} {now : Nat}
    (h : s.Balanced out oneoffs) :
    (noteSlotSample cfg s p wallMs cpuMs now).Balanced out oneoffs := by
  unfold noteSlotSample
  refine balanced_ite (c := _) ?_ ?_
  all_goals
    cases p with
    | none => exact h
    | some id =>
      dsimp only
      cases he : s.prefixes.lookup id with
      | none => exact h
      | some e => exact h.putEntry (by rw [entryOrDefault_of_lookup he])

theorem dropIfEmpty_balanced {p : String} (h : s.Balanced out oneoffs) :
    (s.dropIfEmpty p).Balanced out oneoffs := by
  unfold RegistryInner.dropIfEmpty
  split
  · rename_i e he
    split
    · rename_i hempty
      have hrec := records_perm_of_lookup he
      rw [List.isEmpty_iff.mp hempty] at hrec
      exact Books.perm h hrec
    · exact h
  · exact h

theorem released_facts (i : Instance) (report : RunReport F) (alive : Bool) :
    (i.released report alive).id = i.id ∧ (i.released report alive).inFlight = i.inFlight - 1 := by
  unfold Instance.released
  dsimp only
  split <;> exact ⟨rfl, rfl⟩

theorem releaseRecord_balanced {p : String} {e : PrefixEntry F} {pos : Nat} {i : Instance}
    {report : RunReport F} {alive : Bool} {now : Nat} (hi : e.instances[pos]? = some i)
    (h : (s.putEntry p e).Balanced ((p, i.id) :: out) oneoffs) :
    (releaseRecord (s.putEntry p e) p e pos i report alive now).Balanced out oneoffs := by
  have hopen : Books (e.instances.map (Prod.mk p) ++ s.others p) s.total s.oneoffRunning
      s.idleTotal s.nextInstanceId s.saturated ((p, i.id) :: out) oneoffs := h
  have hfront := hopen.perm (focus hi _)
  have hrun : 0 < i.inFlight := by
    have := hfront.inFlight (p, i) List.mem_cons_self
    simp only [List.count_cons_self] at this
    omega
  have hroom : 0 < s.total := by
    rw [hfront.total, List.length_cons]
    omega
  have hsat : (s.saturated || decide (i.inFlight < 1)) = s.saturated := by
    rw [decide_eq_false (by omega), Bool.or_false]
  obtain ⟨hid, hdown⟩ := released_facts i report alive
  -- Whatever the record becomes, writing it back books one run off.
  have hset : ∀ j : Instance, j.id = i.id → j.inFlight = i.inFlight - 1 →
      (j.dead = true → 0 < j.inFlight) →
      Books ((s.putEntry p e).putEntry p { e with instances := e.instances.set pos j }).records
        s.total s.oneoffRunning (s.idleTotal + if j.isIdle then 1 else 0) s.nextInstanceId
        s.saturated out oneoffs := by
    intro j hj hn hd
    rw [records_putEntry_putEntry]
    exact (hfront.detach hj (by omega) hd).perm (focus_set hi _)
  unfold releaseRecord
  dsimp only
  split
  · rename_i hdead
    split
    · rename_i h0
      have hlast := hfront.detachLast (by omega)
      show Books ((s.putEntry p e).putEntry p _).records (s.total - 1) s.oneoffRunning s.idleTotal
        s.nextInstanceId (s.saturated || decide (i.inFlight < 1) || decide (s.total < 1)) out oneoffs
      rw [records_putEntry_putEntry, hsat, decide_eq_false (p := s.total < 1) (by omega),
        Bool.or_false]
      exact hlast
    · rename_i h0
      have hkept := hset _ hid hdown (fun _ => Nat.pos_of_ne_zero h0)
      rw [Instance.isIdle, decide_eq_false h0, Bool.false_and] at hkept
      show Books _ s.total s.oneoffRunning s.idleTotal s.nextInstanceId
        (s.saturated || decide (i.inFlight < 1)) out oneoffs
      rw [hsat]
      exact hkept
  · rename_i hlive
    split
    · rename_i h0
      have hkept := hset { i.released report alive with handle := ⟨now, report.heapUsedBytes⟩ } hid
        hdown (fun hd => absurd hd hlive)
      have hidle : ({ i.released report alive with
          handle := ⟨now, report.heapUsedBytes⟩ } : Instance).isIdle = true := by
        simp [Instance.isIdle, h0, hlive]
      rw [hidle, if_pos rfl] at hkept
      show Books _ s.total s.oneoffRunning (s.idleTotal + 1) s.nextInstanceId
        (s.saturated || decide (i.inFlight < 1)) out oneoffs
      rw [hsat]
      exact hkept
    · rename_i h0
      have hkept := hset _ hid hdown (fun hd => absurd hd hlive)
      rw [Instance.isIdle, decide_eq_false h0, Bool.false_and] at hkept
      show Books _ s.total s.oneoffRunning s.idleTotal s.nextInstanceId
        (s.saturated || decide (i.inFlight < 1)) out oneoffs
      rw [hsat]
      exact hkept

theorem noteRelease_instances (e : PrefixEntry F) (report : RunReport F) :
    (e.noteRelease report).instances = e.instances := by
  unfold PrefixEntry.noteRelease
  split <;> rfl

/-- The registry with the shape of a clean run noted. -/
def RegistryInner.noted (s : RegistryInner F) (cfg : WarmConfig) (p : String) (report : RunReport F)
    (now : Nat) : RegistryInner F :=
  if !report.tainted then noteSlotSample cfg s (some p) report.wallTimeMs report.cpuTimeMs now else s

theorem noted_balanced {cfg : WarmConfig} {p : String} {report : RunReport F} {now : Nat}
    (h : s.Balanced out oneoffs) : (s.noted cfg p report now).Balanced out oneoffs :=
  balanced_ite (noteSlotSample_balanced h) h

/-- A release up to its pressure pass. -/
def RegistryInner.givenBack (s : RegistryInner F) (cfg : WarmConfig) (prefixId : String)
    (instanceId : Nat) (report : RunReport F) (prefixAlive : Bool) (now : Nat) : RegistryInner F :=
  let s := s.noted cfg prefixId report now
  match s.prefixes.lookup prefixId with
  | none => s
  | some entry =>
    let entry := entry.noteRelease report
    let s := s.putEntry prefixId entry
    let s := match entry.instances.findIdx? fun i => i.id = instanceId with
      | none => s
      | some pos =>
        match entry.instances[pos]? with
        | none => s
        | some inst => releaseRecord s prefixId entry pos inst report prefixAlive now
    if prefixAlive then s else s.dropIfEmpty prefixId

theorem release_passes (cfg : WarmConfig) (s : RegistryInner F) (p : String) (id : Nat)
    (report : RunReport F) (alive : Bool) (r : Reading F) :
    release cfg s p id report alive r =
      (pressurePass (s.givenBack cfg p id report alive r.now) (sampleUsage cfg r.usage)
        cfg.warmBudgetBytes r.passNow r.order).1 := rfl

/-- An outstanding attachment given back, opened: its record is found and released. -/
theorem givenBack_eq (cfg : WarmConfig) (report : RunReport F) (alive : Bool) (now : Nat)
    {p : String} {id : Nat} (h : s.Balanced ((p, id) :: out) oneoffs) :
    ∃ e pos i, e.instances = ((s.noted cfg p report now).entryOrDefault p).instances ∧
      (s.noted cfg p report now).prefixes.lookup p ≠ none ∧ e.instances[pos]? = some i ∧ i.id = id ∧
      s.givenBack cfg p id report alive now =
        if alive then
          releaseRecord ((s.noted cfg p report now).putEntry p e) p e pos i report alive now
        else (releaseRecord ((s.noted cfg p report now).putEntry p e) p e pos i report alive
          now).dropIfEmpty p := by
  have h : (s.noted cfg p report now).Balanced ((p, id) :: out) oneoffs := noted_balanced h
  unfold RegistryInner.givenBack
  dsimp only
  generalize s.noted cfg p report now = s at h ⊢
  -- The attachment is outstanding, so its record is filed under `p`.
  obtain ⟨f, hf, hkey⟩ := Books.held h (p, id) List.mem_cons_self
  obtain ⟨rfl, rfl⟩ := Prod.mk.inj hkey
  obtain ⟨e, he, hmem⟩ := lookup_of_mem_records hf
  have hsame : (e.noteRelease report).instances = (s.entryOrDefault f.1).instances := by
    rw [noteRelease_instances, entryOrDefault_of_lookup he]
  have hmem : f.2 ∈ (e.noteRelease report).instances := by rwa [noteRelease_instances]
  rw [he]
  dsimp only
  generalize e.noteRelease report = e at hsame hmem ⊢
  cases hpos : e.instances.findIdx? fun i => i.id = f.2.id with
  | none =>
    have hnot := List.findIdx?_eq_none_iff.mp hpos f.2 hmem
    simp at hnot
  | some pos =>
    obtain ⟨hlt, hid, -⟩ := List.findIdx?_eq_some_iff_getElem.mp hpos
    have hi : e.instances[pos]? = some e.instances[pos] := List.getElem?_eq_getElem hlt
    have hid : e.instances[pos].id = f.2.id := by simpa using hid
    refine ⟨e, pos, e.instances[pos], hsame, Option.some_ne_none _, hi, hid, ?_⟩
    simp only [hi]
theorem givenBack_balanced {cfg : WarmConfig} {p : String} {id : Nat} {report : RunReport F}
    {alive : Bool} {now : Nat} (h : s.Balanced ((p, id) :: out) oneoffs) :
    (s.givenBack cfg p id report alive now).Balanced out oneoffs := by
  obtain ⟨e, pos, i, hsame, -, hi, rfl, heq⟩ := givenBack_eq cfg report alive now h
  rw [heq]
  have hrec : (releaseRecord ((s.noted cfg p report now).putEntry p e) p e pos i report alive
      now).Balanced out oneoffs := releaseRecord_balanced hi ((noted_balanced h).putEntry hsame)
  exact balanced_ite hrec (dropIfEmpty_balanced hrec)

theorem release_balanced {cfg : WarmConfig} {p : String} {id : Nat} {report : RunReport F}
    {alive : Bool} {r : Reading F} (h : s.Balanced ((p, id) :: out) oneoffs) :
    (release cfg s p id report alive r).Balanced out oneoffs := by
  rw [release_passes]
  exact pressurePass_balanced (givenBack_balanced h)

/-! ### Disposal and one-offs -/

theorem disposePrefix_balanced {p : String} (h : s.Balanced out oneoffs) :
    (disposePrefix s p).Balanced out oneoffs := by
  unfold disposePrefix
  split
  · exact h
  · rename_i e he
    apply dropIfEmpty_balanced
    obtain ⟨hbooks, ht, hi⟩ := Books.dispose e.instances (Books.perm h (records_perm_of_lookup he))
    revert hbooks ht hi
    generalize (List.filter (fun i : Instance => decide (i.inFlight = 0))
      (e.instances.map fun i => { i with dead := true })) = gone
    intro hbooks ht hi
    show Books _ (s.total - gone.length) s.oneoffRunning (s.idleTotal - gone.length)
      s.nextInstanceId (s.saturated || decide (s.total < gone.length) ||
        decide (s.idleTotal < gone.length)) out oneoffs
    rw [decide_eq_false (p := s.total < gone.length) (by omega),
      decide_eq_false (p := s.idleTotal < gone.length) (by omega), Bool.or_false, Bool.or_false]
    exact hbooks

theorem reserveOneoff_balanced {cfg : WarmConfig} {cap : Nat} {r : Reading F}
    (h : s.Balanced out oneoffs) :
    let r := reserveOneoff cfg s cap r
    r.1.Balanced out (if r.2.isOk then oneoffs + 1 else oneoffs) := by
  unfold reserveOneoff
  dsimp only
  split
  · exact pressurePass_balanced h
  · exact Books.reserve (pressurePass_balanced h)

/-- The end of a one-off up to its pressure pass. -/
def RegistryInner.unreserved (s : RegistryInner F) (cfg : WarmConfig) (tainted : Bool)
    (wallMs cpuMs : F) (now : Nat) : RegistryInner F :=
  let s := (s.subTotal 1).subOneoff 1
  if !tainted then noteSlotSample cfg s none wallMs cpuMs now else s

theorem releaseOneoff_passes (cfg : WarmConfig) (s : RegistryInner F) (tainted : Bool)
    (wallMs cpuMs : F) (r : Reading F) :
    releaseOneoff cfg s tainted wallMs cpuMs r =
      (pressurePass (s.unreserved cfg tainted wallMs cpuMs r.now) (sampleUsage cfg r.usage)
        cfg.warmBudgetBytes r.passNow r.order).1 := rfl

theorem unreserved_balanced {cfg : WarmConfig} {tainted : Bool} {wallMs cpuMs : F} {now : Nat}
    (h : s.Balanced out (oneoffs + 1)) :
    (s.unreserved cfg tainted wallMs cpuMs now).Balanced out oneoffs := by
  have hback : ((s.subTotal 1).subOneoff 1).Balanced out oneoffs := by
    have ht : ¬ s.total < 1 := by
      have := Books.total h
      omega
    have ho : ¬ s.oneoffRunning < 1 := by
      have := Books.oneoff h
      omega
    show Books s.records (s.total - 1) (s.oneoffRunning - 1) s.idleTotal s.nextInstanceId
      (s.saturated || decide (s.total < 1) || decide (s.oneoffRunning < 1)) out oneoffs
    rw [decide_eq_false ht, decide_eq_false ho, Bool.or_false, Bool.or_false]
    exact Books.unreserve h
  exact balanced_ite (noteSlotSample_balanced hback) hback

theorem releaseOneoff_balanced {cfg : WarmConfig} {tainted : Bool} {wallMs cpuMs : F}
    {r : Reading F} (h : s.Balanced out (oneoffs + 1)) :
    (releaseOneoff cfg s tainted wallMs cpuMs r).Balanced out oneoffs := by
  rw [releaseOneoff_passes]
  exact pressurePass_balanced (unreserved_balanced h)

/-! ### Runs of the registry -/

/-- The registry together with what it has handed out. -/
structure World (F : Type) where
  registry : RegistryInner F
  /-- The attachments handed out and not yet released. -/
  out : List (String × Nat)
  /-- The one-off reservations not yet released. -/
  oneoffs : Nat

def World.new (F : Type) [F64 F] : World F := ⟨.new F, [], 0⟩

/-- One call into the registry.  A release names the attachment it gives back
by its place among the outstanding ones, so each is released at most once. -/
inductive RegistryOp (F : Type) where
  | acquire (prefixId : String) (caps : HeapCaps) (r : Reading F) (spawn : Except String Unit)
      (util : Nat → Nat)
  | release (k : Nat) (report : RunReport F) (prefixAlive : Bool) (r : Reading F)
  | reserveOneoff (runCapBytes : Nat) (r : Reading F)
  | releaseOneoff (tainted : Bool) (wallMs cpuMs : F) (r : Reading F)
  | disposePrefix (prefixId : String)

def World.step (cfg : WarmConfig) (w : World F) : RegistryOp F → World F
  | .acquire p caps r spawn util =>
    let (registry, answer) := Iso4.acquire cfg w.registry p caps r spawn util
    let (out, oneoffs) := answer.book p w.out w.oneoffs
    { registry, out, oneoffs }
  | .release k report alive r =>
    match w.out[k]? with
    | some (p, id) =>
      { w with registry := Iso4.release cfg w.registry p id report alive r, out := w.out.eraseIdx k }
    | none => w
  | .reserveOneoff cap r =>
    let (registry, answer) := Iso4.reserveOneoff cfg w.registry cap r
    { w with registry, oneoffs := if answer.isOk then w.oneoffs + 1 else w.oneoffs }
  | .releaseOneoff tainted wallMs cpuMs r =>
    if w.oneoffs = 0 then w
    else
      { w with
        registry := Iso4.releaseOneoff cfg w.registry tainted wallMs cpuMs r
        oneoffs := w.oneoffs - 1 }
  | .disposePrefix p => { w with registry := Iso4.disposePrefix w.registry p }

theorem new_balanced : (RegistryInner.new F).Balanced [] 0 where
  total := rfl
  oneoff := rfl
  idle := rfl
  dead _ hr := absurd hr List.not_mem_nil
  inFlight _ hr := absurd hr List.not_mem_nil
  held _ ha := absurd ha List.not_mem_nil
  ids := List.nodup_nil
  fresh _ hr := absurd hr List.not_mem_nil
  unsaturated := rfl

theorem step_balanced (cfg : WarmConfig) (w : World F) (op : RegistryOp F)
    (h : w.registry.Balanced w.out w.oneoffs) :
    (w.step cfg op).registry.Balanced (w.step cfg op).out (w.step cfg op).oneoffs := by
  cases op with
  | acquire p caps r spawn util => exact acquire_balanced h
  | release k report alive r =>
    simp only [World.step]
    cases hk : w.out[k]? with
    | none => exact h
    | some a =>
      obtain ⟨hlt, rfl⟩ := List.getElem?_eq_some_iff.mp hk
      exact release_balanced (Books.permOut h (List.getElem_cons_eraseIdx_perm hlt).symm)
  | reserveOneoff cap r => exact reserveOneoff_balanced h
  | releaseOneoff tainted wallMs cpuMs r =>
    unfold World.step
    dsimp only
    split
    · exact h
    · rename_i hpos
      obtain ⟨n, hn⟩ := Nat.exists_eq_succ_of_ne_zero hpos
      rw [hn] at h ⊢
      exact releaseOneoff_balanced h
  | disposePrefix p => exact disposePrefix_balanced h

/-- After every sequence of calls the books of the registry balance. -/
theorem registry_books (cfg : WarmConfig) (ops : List (RegistryOp F)) :
    let w := Execution.exec (World.step cfg) (World.new F) ops
    Books w.registry.records w.registry.total w.registry.oneoffRunning w.registry.idleTotal
      w.registry.nextInstanceId w.registry.saturated w.out w.oneoffs :=
  Execution.exec_invariant (I := fun w : World F => w.registry.Balanced w.out w.oneoffs)
    (step_balanced cfg) new_balanced ops

end Registry

end Iso4
