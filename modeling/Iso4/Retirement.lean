/-
When a pooled instance retires.

The registry marks an instance dead at a tainted release, at a release after
its prefix was disposed, when its prefix is disposed, and by the soft line.
`Marked` says the same of the history of calls alone, without the registry's
flags and strike counts; `Chronicle` is the registry with that history beside
it.

* `instance_retirement` — in every history the dead flags are the marks of the
  history, a marked instance is never attached to again, its record stays
  exactly as long as runs are attached, and the soft line retires at the second
  untainted release in a row above it.
-/
import Iso4.Ledger

namespace Iso4

/-- What a call into the registry did to an instance. -/
inductive LifeEvent where
  | attached (prefixId : String) (id : Nat) (caps : HeapCaps)
  | released (prefixId : String) (id : Nat) (tainted : Bool) (heapUsedBytes : Nat) (prefixAlive : Bool)
  | disposed (prefixId : String)

/-- The heap readings of an instance's untainted releases, in order. -/
def readings (h : List LifeEvent) (p : String) (id : Nat) : List Nat :=
  h.filterMap fun e =>
    match e with
    | .released q i tainted heapUsedBytes _ =>
      if (q = p ∧ i = id) ∧ tainted = false then some heapUsedBytes else none
    | _ => none

/-- Two readings in a row above a nonzero soft line. -/
def OverTwice (soft : Nat) (rs : List Nat) : Prop :=
  0 < soft ∧ ∃ a b, [a, b] <:+: rs ∧ soft < a ∧ soft < b

/-- The instance was attached to under these caps. -/
def Attached (h : List LifeEvent) (p : String) (id : Nat) (caps : HeapCaps) : Prop :=
  .attached p id caps ∈ h

/-- What marks an attached instance dead. -/
def Marked (h : List LifeEvent) (p : String) (id : Nat) : Prop :=
  (∃ heap alive, .released p id true heap alive ∈ h) ∨
  (∃ tainted heap, .released p id tainted heap false ∈ h) ∨
  (∃ h₁ h₂ caps, h = h₁ ++ h₂ ∧ Attached h₁ p id caps ∧ .disposed p ∈ h₂) ∨
  (∃ caps, Attached h p id caps ∧ OverTwice caps.softBytes (readings h p id))

theorem readings_append (h h' : List LifeEvent) (p : String) (id : Nat) :
    readings (h ++ h') p id = readings h p id ++ readings h' p id := List.filterMap_append

theorem Attached.mono {h : List LifeEvent} {p : String} {id : Nat} {caps : HeapCaps}
    (ha : Attached h p id caps) (h' : List LifeEvent) : Attached (h ++ h') p id caps :=
  List.mem_append_left _ ha

theorem OverTwice.mono {soft : Nat} {rs : List Nat} (ho : OverTwice soft rs) (rs' : List Nat) :
    OverTwice soft (rs ++ rs') := by
  obtain ⟨hpos, a, b, hin, ha, hb⟩ := ho
  exact ⟨hpos, a, b, hin.trans (List.prefix_append _ _).isInfix, ha, hb⟩

/-- Once marked, always marked. -/
theorem Marked.mono {h : List LifeEvent} {p : String} {id : Nat} (hm : Marked h p id)
    (h' : List LifeEvent) : Marked (h ++ h') p id := by
  rcases hm with ⟨heap, alive, hm⟩ | ⟨tainted, heap, hm⟩ | ⟨h₁, h₂, caps, rfl, ha, hd⟩ | ⟨caps, ha, ho⟩
  · exact Or.inl ⟨heap, alive, List.mem_append_left _ hm⟩
  · exact Or.inr (Or.inl ⟨tainted, heap, List.mem_append_left _ hm⟩)
  · refine Or.inr (Or.inr (Or.inl ⟨h₁, h₂ ++ h', caps, List.append_assoc _ _ _, ha, ?_⟩))
    exact List.mem_append_left _ hd
  · refine Or.inr (Or.inr (Or.inr ⟨caps, ha.mono h', ?_⟩))
    rw [readings_append]
    exact ho.mono _

/-- A reading adds a pair with the one before it. -/
theorem overTwice_concat {soft : Nat} {rs : List Nat} {b : Nat} :
    OverTwice soft (rs ++ [b]) ↔
      OverTwice soft rs ∨ (0 < soft ∧ soft < b ∧ ∃ a, rs.getLast? = some a ∧ soft < a) := by
  constructor
  · rintro ⟨hpos, a, c, ⟨xs, ys, hin⟩, ha, hc⟩
    rcases List.eq_nil_or_concat ys with rfl | ⟨zs, z, rfl⟩
    · -- The pair ends with the new reading.
      have hsplit : (xs ++ [a]) ++ [c] = rs ++ [b] := by simpa using hin
      obtain ⟨hrs, hb⟩ := List.append_inj' hsplit rfl
      obtain rfl : c = b := by simpa using hb
      exact Or.inr ⟨hpos, hc, a, by rw [← hrs, List.getLast?_concat], ha⟩
    · have hsplit : (xs ++ [a, c] ++ zs) ++ [z] = rs ++ [b] := by simpa using hin
      obtain ⟨hrs, -⟩ := List.append_inj' hsplit rfl
      exact Or.inl ⟨hpos, a, c, ⟨xs, zs, hrs⟩, ha, hc⟩
  · rintro (ho | ⟨hpos, hb, a, hlast, ha⟩)
    · exact ho.mono _
    · obtain ⟨xs, rfl⟩ := List.getLast?_eq_some_iff.mp hlast
      exact ⟨hpos, a, b, ⟨xs, [], by simp⟩, ha, hb⟩

/-! ### What one event adds -/

section Events

variable {h : List LifeEvent} {p q : String} {id j : Nat} {caps : HeapCaps}

theorem attached_concat {e : LifeEvent} :
    Attached (h ++ [e]) q j caps ↔ Attached h q j caps ∨ e = .attached q j caps := by
  simp only [Attached, List.mem_append, List.mem_singleton, eq_comm]

/-- Cutting a history with one more event in two. -/
theorem concat_eq_append {α : Type} {l l₁ l₂ : List α} {a : α} (h : l ++ [a] = l₁ ++ l₂) :
    (l₂ = [] ∧ l₁ = l ++ [a]) ∨ ∃ m, l₂ = m ++ [a] ∧ l = l₁ ++ m := by
  rcases List.eq_nil_or_concat l₂ with rfl | ⟨m, b, rfl⟩
  · exact Or.inl ⟨rfl, by simpa using h.symm⟩
  · rw [List.concat_eq_append, ← List.append_assoc] at h
    obtain ⟨hl, hb⟩ := List.append_inj' h rfl
    obtain rfl : a = b := by simpa using hb
    exact Or.inr ⟨m, List.concat_eq_append, hl⟩

theorem readings_attached : readings (h ++ [.attached p id caps]) q j = readings h q j := by
  rw [readings_append]
  exact List.append_nil _

theorem readings_disposed : readings (h ++ [.disposed p]) q j = readings h q j := by
  rw [readings_append]
  exact List.append_nil _

theorem readings_released {tainted alive : Bool} {heap : Nat} :
    readings (h ++ [.released p id tainted heap alive]) q j =
      if (p = q ∧ id = j) ∧ tainted = false then readings h q j ++ [heap] else readings h q j := by
  rw [readings_append]
  by_cases hc : (p = q ∧ id = j) ∧ tainted = false
  · rw [if_pos hc]
    simp [readings, hc]
  · rw [if_neg hc]
    simp only [readings, List.filterMap_cons, if_neg hc, List.filterMap_nil, List.append_nil]

/-- A disposal after an attachment, with one more event. -/
theorem disposedAfter_concat {e : LifeEvent} :
    (∃ h₁ h₂ caps, h ++ [e] = h₁ ++ h₂ ∧ Attached h₁ q j caps ∧ .disposed q ∈ h₂) ↔
      (∃ h₁ h₂ caps, h = h₁ ++ h₂ ∧ Attached h₁ q j caps ∧ .disposed q ∈ h₂) ∨
        (e = .disposed q ∧ ∃ caps, Attached h q j caps) := by
  constructor
  · rintro ⟨h₁, h₂, caps, heq, ha, hd⟩
    rcases concat_eq_append heq with ⟨rfl, -⟩ | ⟨m, rfl, rfl⟩
    · cases hd
    · rcases List.mem_append.mp hd with hd | hd
      · exact Or.inl ⟨h₁, m, caps, rfl, ha, hd⟩
      · exact Or.inr ⟨(List.mem_singleton.mp hd).symm, caps, ha.mono m⟩
  · rintro (⟨h₁, h₂, caps, rfl, ha, hd⟩ | ⟨rfl, caps, ha⟩)
    · exact ⟨h₁, h₂ ++ [e], caps, List.append_assoc _ _ _, ha, List.mem_append_left _ hd⟩
    · exact ⟨h, [.disposed q], caps, rfl, ha, List.mem_singleton.mpr rfl⟩

/-- An attachment marks nothing. -/
theorem marked_attached (hc : Attached h p id caps ∨ readings h p id = []) :
    Marked (h ++ [.attached p id caps]) q j ↔ Marked h q j := by
  refine ⟨fun hm => ?_, fun hm => hm.mono _⟩
  rcases hm with ⟨heap, alive, hm⟩ | ⟨tainted, heap, hm⟩ | hm | ⟨caps', ha, ho⟩
  · exact Or.inl ⟨heap, alive, by simpa using hm⟩
  · exact Or.inr (Or.inl ⟨tainted, heap, by simpa using hm⟩)
  · rcases disposedAfter_concat.mp hm with hm | ⟨he, -⟩
    · exact Or.inr (Or.inr (Or.inl hm))
    · cases he
  · rw [readings_attached] at ho
    rcases attached_concat.mp ha with ha | he
    · exact Or.inr (Or.inr (Or.inr ⟨caps', ha, ho⟩))
    · cases he
      rcases hc with ha | hnone
      · exact Or.inr (Or.inr (Or.inr ⟨caps, ha, ho⟩))
      · obtain ⟨-, a, b, hin, -⟩ := ho
        rw [hnone] at hin
        cases List.eq_nil_of_infix_nil hin

/-- A disposal marks what was attached under the prefix. -/
theorem marked_disposed :
    Marked (h ++ [.disposed p]) q j ↔ Marked h q j ∨ (p = q ∧ ∃ caps, Attached h q j caps) := by
  constructor
  · rintro (⟨heap, alive, hm⟩ | ⟨tainted, heap, hm⟩ | hm | ⟨caps, ha, ho⟩)
    · exact Or.inl (Or.inl ⟨heap, alive, by simpa using hm⟩)
    · exact Or.inl (Or.inr (Or.inl ⟨tainted, heap, by simpa using hm⟩))
    · rcases disposedAfter_concat.mp hm with hm | ⟨he, ha⟩
      · exact Or.inl (Or.inr (Or.inr (Or.inl hm)))
      · cases he
        exact Or.inr ⟨rfl, ha⟩
    · rw [readings_disposed] at ho
      rcases attached_concat.mp ha with ha | he
      · exact Or.inl (Or.inr (Or.inr (Or.inr ⟨caps, ha, ho⟩)))
      · cases he
  · rintro (hm | ⟨rfl, ha⟩)
    · exact hm.mono _
    · exact Or.inr (Or.inr (Or.inl (disposedAfter_concat.mpr (Or.inr ⟨rfl, ha⟩))))

/-- The soft line retires at this reading. -/
def Strikes (h : List LifeEvent) (p : String) (id soft heap : Nat) : Prop :=
  0 < soft ∧ soft < heap ∧ ∃ a, (readings h p id).getLast? = some a ∧ soft < a

/-- A release marks its instance when it is tainted, its prefix is gone, or the
soft line strikes. -/
theorem marked_released {tainted alive : Bool} {heap : Nat} :
    Marked (h ++ [.released p id tainted heap alive]) q j ↔
      Marked h q j ∨ ((p = q ∧ id = j) ∧ (tainted = true ∨ alive = false ∨
        (tainted = false ∧ ∃ caps, Attached h q j caps ∧ Strikes h q j caps.softBytes heap))) := by
  constructor
  · rintro (⟨heap', alive', hm⟩ | ⟨tainted', heap', hm⟩ | hm | ⟨caps, ha, ho⟩)
    · rcases List.mem_append.mp hm with hm | hm
      · exact Or.inl (Or.inl ⟨heap', alive', hm⟩)
      · cases List.mem_singleton.mp hm
        exact Or.inr ⟨⟨rfl, rfl⟩, Or.inl rfl⟩
    · rcases List.mem_append.mp hm with hm | hm
      · exact Or.inl (Or.inr (Or.inl ⟨tainted', heap', hm⟩))
      · cases List.mem_singleton.mp hm
        exact Or.inr ⟨⟨rfl, rfl⟩, Or.inr (Or.inl rfl)⟩
    · rcases disposedAfter_concat.mp hm with hm | ⟨he, -⟩
      · exact Or.inl (Or.inr (Or.inr (Or.inl hm)))
      · cases he
    · rcases attached_concat.mp ha with ha | he
      · rw [readings_released] at ho
        split at ho
        · next hc =>
          rcases overTwice_concat.mp ho with ho | hs
          · exact Or.inl (Or.inr (Or.inr (Or.inr ⟨caps, ha, ho⟩)))
          · exact Or.inr ⟨hc.1, Or.inr (Or.inr ⟨hc.2, caps, ha, hs⟩)⟩
        · exact Or.inl (Or.inr (Or.inr (Or.inr ⟨caps, ha, ho⟩)))
      · cases he
  · rintro (hm | ⟨⟨rfl, rfl⟩, rfl | rfl | ⟨rfl, caps, ha, hs⟩⟩)
    · exact hm.mono _
    · exact Or.inl ⟨heap, alive, by simp⟩
    · exact Or.inr (Or.inl ⟨tainted, heap, by simp⟩)
    · refine Or.inr (Or.inr (Or.inr ⟨caps, ha.mono _, ?_⟩))
      rw [readings_released, if_pos ⟨⟨rfl, rfl⟩, rfl⟩]
      exact overTwice_concat.mpr (Or.inr hs)

end Events

/-! ### What the operations leave of the records -/

/-- What a record keeps while runs come and go. -/
structure Card where
  prefixId : String
  id : Nat
  caps : HeapCaps
  softStrikes : Nat
  dead : Bool

def Filed.card (f : Filed) : Card := ⟨f.1, f.2.id, f.2.caps, f.2.softStrikes, f.2.dead⟩

section Registry

set_option linter.unusedSectionVars false

variable {F : Type} [F64 F] {s s' s'' : RegistryInner F}

def RegistryInner.cards (s : RegistryInner F) : List Card := s.records.map Filed.card

theorem mem_cards {k : Card} : k ∈ s.cards ↔ ∃ f ∈ s.records, Filed.card f = k := List.mem_map

/-- No new record, and none changed but for its runs and its handle. -/
structure Thins (s s' : RegistryInner F) : Prop where
  cards : s'.cards ⊆ s.cards
  next : s'.nextInstanceId = s.nextInstanceId

theorem Thins.refl (s : RegistryInner F) : Thins s s := ⟨List.Subset.refl _, rfl⟩

theorem Thins.trans (h : Thins s s') (h' : Thins s' s'') : Thins s s'' :=
  ⟨List.Subset.trans h'.cards h.cards, h'.next.trans h.next⟩

theorem thins_ite {c : Prop} [Decidable c] {t : RegistryInner F} (ht : Thins s s') (he : Thins s t) :
    Thins s (if c then s' else t) := by
  split
  · exact ht
  · exact he

theorem Thins.of_records (h : s'.records = s.records) (hn : s'.nextInstanceId = s.nextInstanceId) :
    Thins s s' := ⟨by rw [RegistryInner.cards, RegistryInner.cards, h]; exact List.Subset.refl _, hn⟩

theorem ne_of_mem_others {p : String} {f : Filed} (h : f ∈ s.others p) : f.1 ≠ p := by
  obtain ⟨e, he, hf⟩ := List.mem_flatMap.mp h
  obtain ⟨i, -, rfl⟩ := List.mem_map.mp hf
  rintro rfl
  exact List.notMem_keys_kerase e.1 s.prefixes.nodupKeys (List.mem_keys_of_mem he)

/-- Records of one prefix rewritten: each new one has the card of an old one. -/
theorem Thins.putEntry {p : String} {e : PrefixEntry F}
    (h : ∀ i ∈ e.instances, ∃ j ∈ (s.entryOrDefault p).instances,
      Filed.card (p, j) = Filed.card (p, i)) : Thins s (s.putEntry p e) where
  next := rfl
  cards := by
    intro k hk
    obtain ⟨f, hf, rfl⟩ := mem_cards.mp hk
    have hmem := fun f => (records_perm s p).mem_iff (a := f)
    rw [records_putEntry] at hf
    rcases List.mem_append.mp hf with hf | hf
    · obtain ⟨i, hi, rfl⟩ := List.mem_map.mp hf
      obtain ⟨j, hj, hc⟩ := h i hi
      refine mem_cards.mpr ⟨(p, j), ?_, hc⟩
      exact (hmem _).mpr (List.mem_append_left _ (List.mem_map_of_mem hj))
    · exact mem_cards.mpr ⟨f, (hmem f).mpr (List.mem_append_right _ hf), rfl⟩

/-- The statistics of an entry rewritten. -/
theorem Thins.putDemand {p : String} {e : PrefixEntry F}
    (h : e.instances = (s.entryOrDefault p).instances) : Thins s (s.putEntry p e) :=
  Thins.putEntry fun i hi => ⟨i, h ▸ hi, rfl⟩

theorem thins_evictScored (s : RegistryInner F) (now : Nat) (order : HashOrder F) :
    Thins s (evictScored s now order).1 := by
  unfold evictScored
  dsimp only
  split
  · exact Thins.refl s
  · split
    · exact Thins.refl s
    · next p i _ =>
      split
      · exact Thins.refl s
      · next e he =>
        have hput : Thins s (s.putEntry p { e with instances := e.instances.filter fun j => j.id ≠ i.id }) := by
          refine Thins.putEntry fun j hj => ⟨j, ?_, rfl⟩
          rw [entryOrDefault_of_lookup he]
          exact (List.mem_filter.mp hj).1
        exact hput.trans (Thins.of_records rfl rfl)

theorem thins_shed (now : Nat) (order : HashOrder F) (n : Nat) (s : RegistryInner F) :
    Thins s (shed now order n s).1 := by
  induction n generalizing s with
  | zero => exact Thins.refl s
  | succ n ih =>
    have hone := thins_evictScored s now order
    unfold shed
    split
    · next hev =>
      rw [hev] at hone
      exact hone
    · next hev =>
      rw [hev] at hone
      exact hone.trans (ih _)

theorem thins_pressurePass (s : RegistryInner F) (usage : Option Nat) (budget now : Nat)
    (order : HashOrder F) : Thins s (pressurePass s usage budget now order).1 := by
  unfold pressurePass
  split
  · exact Thins.of_records rfl rfl
  · have hshed : ∀ n shedding lastPass,
        Thins s (shed now order n { s with shedding, lastPass }).1 := by
      intro n shedding lastPass
      have hlatch : Thins s { s with shedding, lastPass } := Thins.of_records rfl rfl
      exact hlatch.trans (thins_shed now order n _)
    exact thins_ite ((hshed _ _ _).trans (Thins.of_records rfl rfl)) (hshed _ _ _)

theorem thins_noteSlotSample (cfg : WarmConfig) (s : RegistryInner F) (p : Option String)
    (wallMs cpuMs : F) (now : Nat) : Thins s (noteSlotSample cfg s p wallMs cpuMs now) := by
  unfold noteSlotSample
  refine thins_ite ?_ ?_
  all_goals
    cases p with
    | none => exact Thins.of_records rfl rfl
    | some id =>
      dsimp only
      cases he : s.prefixes.lookup id with
      | none => exact Thins.of_records rfl rfl
      | some e =>
        have hput : Thins s (s.putEntry id { e with demand := e.demand.noteCompletion wallMs cpuMs now }) :=
          Thins.putDemand (by rw [entryOrDefault_of_lookup he])
        exact hput.trans (Thins.of_records rfl rfl)

theorem thins_dropIfEmpty (s : RegistryInner F) (p : String) : Thins s (s.dropIfEmpty p) := by
  unfold RegistryInner.dropIfEmpty
  split
  · next e he =>
    refine thins_ite ⟨fun k hk => ?_, rfl⟩ (Thins.refl s)
    obtain ⟨f, hf, rfl⟩ := mem_cards.mp hk
    have hmem := (records_perm_of_lookup he).mem_iff (a := f)
    exact mem_cards.mpr ⟨f, hmem.mpr (List.mem_append_right _ hf), rfl⟩
  · exact Thins.refl s

/-! ### acquire -/

/-- What `acquire` leaves: it attaches to a live record asked for under the same
caps, or to a fresh one. -/
def Admits (s s' : RegistryInner F) (p : String) (caps : HeapCaps) : Acquired → Prop
  | .attached id =>
    (Thins s s' ∧ ∃ strikes, ⟨p, id, caps, strikes, false⟩ ∈ s.cards) ∨
    (id = s.nextInstanceId ∧ s'.nextInstanceId = s.nextInstanceId + 1 ∧
      s'.cards ⊆ ⟨p, id, caps, 0, false⟩ :: s.cards)
  | _ => Thins s s'

theorem Admits.after {p : String} {caps : HeapCaps} {answer : Acquired} (h : Thins s s')
    (ha : Admits s' s'' p caps answer) : Admits s s'' p caps answer := by
  cases answer with
  | attached id =>
    rcases ha with ⟨ht, strikes, hk⟩ | ⟨rfl, hn, hc⟩
    · exact Or.inl ⟨h.trans ht, strikes, h.cards hk⟩
    · refine Or.inr ⟨h.next, by rw [hn, h.next], fun k hk => ?_⟩
      rcases List.mem_cons.mp (hc hk) with rfl | hk
      · exact List.mem_cons_self
      · exact List.mem_cons_of_mem _ (h.cards hk)
  | _ => exact h.trans ha

/-- Attaching to the record at `pos`. -/
theorem admits_attachAt {p : String} {e : PrefixEntry F} {pos : Nat} {i : Instance} {n : Nat}
    (hi : e.instances[pos]? = some i) (hlive : i.dead = false) :
    Thins (s.putEntry p e) ((s.putEntry p e).attachAt p e pos i n) ∧
      ⟨p, i.id, i.caps, i.softStrikes, false⟩ ∈ (s.putEntry p e).cards := by
  have hmem : i ∈ e.instances := List.mem_of_getElem? hi
  constructor
  · refine Thins.putEntry fun j hj => ?_
    rw [entryOrDefault_putEntry]
    rcases List.mem_or_eq_of_mem_set hj with hj | rfl
    · exact ⟨j, hj, rfl⟩
    · exact ⟨i, hmem, rfl⟩
  · refine mem_cards.mpr ⟨(p, i), ?_, ?_⟩
    · rw [records_putEntry]
      exact List.mem_append_left _ (List.mem_map_of_mem hmem)
    · rw [Filed.card, hlive]

theorem admits_pushSpawned {p : String} {e : PrefixEntry F} {now : Nat} {caps : HeapCaps} :
    Admits (s.putEntry p e) ((s.putEntry p e).pushSpawned p e now caps) p caps
      (.attached s.nextInstanceId) := by
  refine Or.inr ⟨rfl, rfl, fun k hk => ?_⟩
  obtain ⟨f, hf, rfl⟩ := mem_cards.mp hk
  have hf : f ∈ ((s.putEntry p e).putEntry p { e with
      instances := e.instances ++ [.spawned s.nextInstanceId now caps] }).records := hf
  rw [records_putEntry_putEntry, List.map_append, List.append_assoc] at hf
  have hold : ∀ f ∈ e.instances.map (Prod.mk p) ++ s.others p, Filed.card f ∈ (s.putEntry p e).cards :=
    fun f hf => mem_cards.mpr ⟨f, hf, rfl⟩
  rcases List.mem_append.mp hf with hf | hf
  · exact List.mem_cons_of_mem _ (hold f (List.mem_append_left _ hf))
  · rcases List.mem_cons.mp hf with rfl | hf
    · exact List.mem_cons_self
    · exact List.mem_cons_of_mem _ (hold f (List.mem_append_right _ hf))

theorem admits_acquireFirst {cfg : WarmConfig} {p : String} {e : PrefixEntry F} {caps : HeapCaps}
    {usage : Option Nat} {admitWarm : Bool} {now : Nat} {spawn : Except String Unit} :
    Admits (s.putEntry p e)
      (acquireFirst cfg (s.putEntry p e) p e caps usage admitWarm now spawn).1 p caps
      (acquireFirst cfg (s.putEntry p e) p e caps usage admitWarm now spawn).2 := by
  unfold acquireFirst
  split
  · exact Thins.refl _
  · split
    · exact Thins.refl _
    · split
      · exact Thins.of_records rfl rfl
      · exact admits_pushSpawned

theorem caps_of_joinable {l : List Instance} {caps : HeapCaps} {pos : Nat} {i : Instance}
    (h : (pos, i) ∈ joinable l caps) : i.caps = caps := by
  obtain ⟨-, hi⟩ := List.mem_filter.mp h
  simp only [Bool.and_eq_true, decide_eq_true_eq] at hi
  exact hi.2

theorem caps_of_idlePos {l : List Instance} {caps : HeapCaps} {pos : Nat} {i : Instance}
    (h : idlePos l caps = some (pos, i)) : i.caps = caps := by
  obtain ⟨-, hi⟩ := List.mem_filter.mp (maxBy_mem h)
  simp only [Bool.and_eq_true, decide_eq_true_eq] at hi
  exact hi.2

theorem admits_acquireJoin {cfg : WarmConfig} {p : String} {e : PrefixEntry F} {caps : HeapCaps}
    {usage : Option Nat} {admitWarm : Bool} {now : Nat} {spawn : Except String Unit} {util : Nat → Nat}
    (hnone : idlePos e.instances caps = none) :
    Admits (s.putEntry p e)
      (acquireJoin cfg (s.putEntry p e) p e caps usage admitWarm now spawn util).1 p caps
      (acquireJoin cfg (s.putEntry p e) p e caps usage admitWarm now spawn util).2 := by
  unfold acquireJoin
  dsimp only
  split
  · next pos i hpick =>
    obtain ⟨k, -, hk⟩ := Option.bind_eq_some_iff.mp hpick
    have hmem := List.mem_of_getElem? hk
    obtain ⟨hi, hlive, -⟩ := joinable_busy hnone hmem
    obtain ⟨ht, hcard⟩ := admits_attachAt (s := s) (p := p) (n := i.inFlight + 1) hi hlive
    rw [caps_of_joinable hmem] at hcard
    exact Or.inl ⟨ht, _, hcard⟩
  · split
    · exact Thins.refl _
    · exact admits_pushSpawned

theorem admits_acquire (cfg : WarmConfig) (s : RegistryInner F) (p : String) (caps : HeapCaps)
    (r : Reading F) (spawn : Except String Unit) (util : Nat → Nat) :
    Admits s (acquire cfg s p caps r spawn util).1 p caps (acquire cfg s p caps r spawn util).2 := by
  have hpass := thins_pressurePass s (sampleUsage cfg r.usage) cfg.warmBudgetBytes r.passNow r.order
  unfold acquire
  dsimp only
  generalize pressurePass s (sampleUsage cfg r.usage) cfg.warmBudgetBytes r.passNow r.order = t at hpass ⊢
  refine Admits.after hpass ?_
  generalize (@ite (PrefixDemand F) _ (instDecidableEqBool _ _) _ _) = d
  -- The entry is written back with the same records and newer statistics.
  have hput : Thins t.1 (t.1.putEntry p { (t.1.entryOrDefault p) with demand := d }) :=
    Thins.putDemand rfl
  refine Admits.after hput ?_
  split
  · next pos i hidle =>
    obtain ⟨hi, hlive, -⟩ := idlePos_spec hidle
    obtain ⟨ht, hcard⟩ := admits_attachAt (s := t.1) (p := p)
      (e := { (t.1.entryOrDefault p) with demand := d }) (n := 1) hi hlive
    rw [caps_of_idlePos hidle] at hcard
    exact Or.inl ⟨ht.trans (Thins.of_records rfl rfl), _, hcard⟩
  · next hidle =>
    split
    · exact admits_acquireFirst
    · exact admits_acquireJoin hidle

/-! ### release -/

/-- What a release leaves: other records, and the released one. -/
def Releases (s s' : RegistryInner F) (p : String) (id : Nat) (report : RunReport F) (alive : Bool) :
    Prop :=
  s'.nextInstanceId = s.nextInstanceId ∧ ∀ k ∈ s'.cards, (k ∈ s.cards ∧ k.id ≠ id) ∨
    ∃ i, Filed.card (p, i) ∈ s.cards ∧ i.id = id ∧ k = Filed.card (p, i.released report alive)

theorem Releases.after {p : String} {id : Nat} {report : RunReport F} {alive : Bool} (h : Thins s s')
    (hr : Releases s' s'' p id report alive) : Releases s s'' p id report alive := by
  refine ⟨hr.1.trans h.next, fun k hk => ?_⟩
  rcases hr.2 k hk with ⟨hk, hne⟩ | ⟨i, hi, hid, hk⟩
  · exact Or.inl ⟨h.cards hk, hne⟩
  · exact Or.inr ⟨i, h.cards hi, hid, hk⟩

theorem Releases.thins {p : String} {id : Nat} {report : RunReport F} {alive : Bool}
    (hr : Releases s s' p id report alive) (h : Thins s' s'') : Releases s s'' p id report alive :=
  ⟨h.next.trans hr.1, fun k hk => hr.2 k (h.cards hk)⟩

theorem releases_releaseRecord {p : String} {e : PrefixEntry F} {pos : Nat} {i : Instance}
    {report : RunReport F} {alive : Bool} {now : Nat} {out : List (String × Nat)} {oneoffs : Nat}
    (hi : e.instances[pos]? = some i) (h : (s.putEntry p e).Balanced out oneoffs) :
    Releases (s.putEntry p e) (releaseRecord (s.putEntry p e) p e pos i report alive now) p i.id
      report alive := by
  have hfocus : (s.putEntry p e).records.Perm
      ((p, i) :: ((e.instances.eraseIdx pos).map (Prod.mk p) ++ s.others p)) := focus hi _
  have hother : ∀ f ∈ (e.instances.eraseIdx pos).map (Prod.mk p) ++ s.others p,
      Filed.card f ∈ (s.putEntry p e).cards ∧ f.2.id ≠ i.id := by
    intro f hf
    refine ⟨mem_cards.mpr ⟨f, hfocus.mem_iff.mpr (List.mem_cons_of_mem _ hf), rfl⟩, ?_⟩
    exact (h.perm hfocus).key_ne f hf
  have hself : Filed.card (p, i) ∈ (s.putEntry p e).cards :=
    mem_cards.mpr ⟨_, hfocus.mem_iff.mpr List.mem_cons_self, rfl⟩
  have hset : ∀ j : Instance, Filed.card (p, j) = Filed.card (p, i.released report alive) →
      ∀ f ∈ ((s.putEntry p e).putEntry p { e with instances := e.instances.set pos j }).records,
        (Filed.card f ∈ (s.putEntry p e).cards ∧ (Filed.card f).id ≠ i.id) ∨
          ∃ i', Filed.card (p, i') ∈ (s.putEntry p e).cards ∧ i'.id = i.id ∧
            Filed.card f = Filed.card (p, i'.released report alive) := by
    intro j hj f hf
    rw [records_putEntry_putEntry] at hf
    rcases List.mem_cons.mp ((focus_set hi _).mem_iff.mpr hf) with rfl | hf
    · exact Or.inr ⟨i, hself, rfl, hj⟩
    · exact Or.inl (hother f hf)
  unfold releaseRecord
  dsimp only
  split
  · split
    · refine ⟨rfl, fun k hk => ?_⟩
      obtain ⟨f, hf, rfl⟩ := mem_cards.mp hk
      have hf : f ∈ ((s.putEntry p e).putEntry p
          { e with instances := e.instances.eraseIdx pos }).records := hf
      rw [records_putEntry_putEntry] at hf
      exact Or.inl (hother f hf)
    · refine ⟨rfl, fun k hk => ?_⟩
      obtain ⟨f, hf, rfl⟩ := mem_cards.mp hk
      exact hset _ rfl f hf
  · split
    · refine ⟨rfl, fun k hk => ?_⟩
      obtain ⟨f, hf, rfl⟩ := mem_cards.mp hk
      exact hset { i.released report alive with handle := ⟨now, report.heapUsedBytes⟩ } rfl f hf
    · refine ⟨rfl, fun k hk => ?_⟩
      obtain ⟨f, hf, rfl⟩ := mem_cards.mp hk
      exact hset _ rfl f hf

theorem thins_noted (cfg : WarmConfig) (s : RegistryInner F) (p : String) (report : RunReport F)
    (now : Nat) : Thins s (s.noted cfg p report now) :=
  thins_ite (thins_noteSlotSample cfg s _ _ _ _) (Thins.refl s)

theorem releases_givenBack {cfg : WarmConfig} {p : String} {id : Nat} {report : RunReport F}
    {alive : Bool} {now : Nat} {out : List (String × Nat)} {oneoffs : Nat}
    (h : s.Balanced ((p, id) :: out) oneoffs) :
    Releases s (s.givenBack cfg p id report alive now) p id report alive := by
  obtain ⟨e, pos, i, hsame, -, hi, rfl, heq⟩ := givenBack_eq cfg report alive now h
  rw [heq]
  refine Releases.after ((thins_noted cfg s p report now).trans (Thins.putDemand hsame)) ?_
  have hrec : Releases ((s.noted cfg p report now).putEntry p e)
      (releaseRecord ((s.noted cfg p report now).putEntry p e) p e pos i report alive now) p
      i.id report alive := releases_releaseRecord hi ((noted_balanced h).putEntry hsame)
  exact hrec.thins (thins_ite (Thins.refl _) (thins_dropIfEmpty _ _))

theorem releases_release {cfg : WarmConfig} {p : String} {id : Nat} {report : RunReport F}
    {alive : Bool} {r : Reading F} {out : List (String × Nat)} {oneoffs : Nat}
    (h : s.Balanced ((p, id) :: out) oneoffs) :
    Releases s (release cfg s p id report alive r) p id report alive := by
  rw [release_passes]
  exact (releases_givenBack h).thins (thins_pressurePass _ _ _ _ _)

/-! ### Disposal and one-offs -/

/-- What a disposal leaves: the records of other prefixes, and dead ones. -/
theorem cards_disposePrefix {p : String} {k : Card} (hk : k ∈ (disposePrefix s p).cards) :
    (k ∈ s.cards ∧ k.prefixId ≠ p) ∨
      ∃ i, Filed.card (p, i) ∈ s.cards ∧ k = Filed.card (p, { i with dead := true }) := by
  unfold disposePrefix at hk
  split at hk
  · next hnone =>
    refine Or.inl ⟨hk, fun hp => ?_⟩
    obtain ⟨f, hf, rfl⟩ := mem_cards.mp hk
    obtain ⟨e, he, -⟩ := lookup_of_mem_records hf
    have hp : f.1 = p := hp
    rw [hp, hnone] at he
    cases he
  · next e he =>
    obtain ⟨f, hf, rfl⟩ := mem_cards.mp ((thins_dropIfEmpty _ p).cards hk)
    have hf : f ∈ (s.putEntry p _).records := hf
    rw [records_putEntry] at hf
    have hsplit := fun f => (records_perm_of_lookup he).mem_iff (a := f)
    rcases List.mem_append.mp hf with hf | hf
    · obtain ⟨i, hi, rfl⟩ := List.mem_map.mp hf
      obtain ⟨j, hj, rfl⟩ := List.mem_map.mp (List.mem_filter.mp hi).1
      refine Or.inr ⟨j, mem_cards.mpr ⟨(p, j), ?_, rfl⟩, rfl⟩
      exact (hsplit _).mpr (List.mem_append_left _ (List.mem_map_of_mem hj))
    · refine Or.inl ⟨mem_cards.mpr ⟨f, (hsplit f).mpr (List.mem_append_right _ hf), rfl⟩, ?_⟩
      exact ne_of_mem_others hf

theorem next_disposePrefix (s : RegistryInner F) (p : String) :
    (disposePrefix s p).nextInstanceId = s.nextInstanceId := by
  unfold disposePrefix
  split
  · rfl
  · exact (thins_dropIfEmpty _ p).next

theorem thins_reserveOneoff (cfg : WarmConfig) (s : RegistryInner F) (cap : Nat) (r : Reading F) :
    Thins s (reserveOneoff cfg s cap r).1 := by
  have hpass := thins_pressurePass s (sampleUsage cfg r.usage) cfg.warmBudgetBytes r.passNow r.order
  unfold reserveOneoff
  dsimp only
  split
  · exact hpass
  · exact hpass.trans (Thins.of_records rfl rfl)

theorem thins_unreserved (cfg : WarmConfig) (s : RegistryInner F) (tainted : Bool)
    (wallMs cpuMs : F) (now : Nat) : Thins s (s.unreserved cfg tainted wallMs cpuMs now) := by
  have hback : Thins s ((s.subTotal 1).subOneoff 1) := Thins.of_records rfl rfl
  exact hback.trans (thins_ite (thins_noteSlotSample cfg _ none wallMs cpuMs now) (Thins.refl _))

theorem thins_releaseOneoff (cfg : WarmConfig) (s : RegistryInner F) (tainted : Bool)
    (wallMs cpuMs : F) (r : Reading F) : Thins s (releaseOneoff cfg s tainted wallMs cpuMs r) := by
  rw [releaseOneoff_passes]
  exact (thins_unreserved cfg s tainted wallMs cpuMs r.now).trans (thins_pressurePass _ _ _ _ _)

/-! ### The soft line -/

/-- The soft line retires the instance at this release. -/
def Instance.softRetires (i : Instance) (report : RunReport F) : Bool :=
  (!report.tainted && decide (i.caps.softBytes > 0)) &&
    (softStrike i.softStrikes (decide (report.heapUsedBytes > i.caps.softBytes))).2

theorem softStrike_count (prev : Nat) (high : Bool) :
    0 < (softStrike prev high).1 ↔ high = true := by
  cases high with
  | false => simp [softStrike]
  | true =>
    have hmin : 0 < min (prev + 1) 255 := by omega
    simp [softStrike, hmin]

/-- The second strike retires. -/
theorem softStrike_retires (prev : Nat) (high : Bool) :
    (softStrike prev high).2 = true ↔ high = true ∧ 0 < prev := by
  cases high with
  | false => simp [softStrike]
  | true =>
    have hmin : 2 ≤ min (prev + 1) 255 ↔ 0 < prev := by omega
    simpa [softStrike, softLineStrikes] using hmin

theorem released_caps (i : Instance) (report : RunReport F) (alive : Bool) :
    (i.released report alive).caps = i.caps := by
  unfold Instance.released
  dsimp only
  split <;> rfl

theorem released_dead (i : Instance) (report : RunReport F) (alive : Bool) :
    (i.released report alive).dead = (i.dead || i.softRetires report || report.tainted || !alive) := by
  unfold Instance.released Instance.softRetires
  dsimp only
  split
  · next h => rw [h, Bool.true_and]
  · next h =>
    rw [Bool.not_eq_true] at h
    rw [h, Bool.false_and, Bool.or_false]

theorem released_softStrikes (i : Instance) (report : RunReport F) (alive : Bool) :
    (i.released report alive).softStrikes =
      if !report.tainted && decide (i.caps.softBytes > 0) then
        (softStrike i.softStrikes (decide (report.heapUsedBytes > i.caps.softBytes))).1
      else i.softStrikes := by
  unfold Instance.released
  dsimp only
  split <;> rfl

/-! ### The registry and its history -/

/-- What a call into the registry does to instances. -/
def World.events (cfg : WarmConfig) (w : World F) : RegistryOp F → List LifeEvent
  | .acquire p caps r spawn util =>
    match (Iso4.acquire cfg w.registry p caps r spawn util).2 with
    | .attached id => [.attached p id caps]
    | _ => []
  | .release k report alive _ =>
    match w.out[k]? with
    | some (p, id) => [.released p id report.tainted report.heapUsedBytes alive]
    | none => []
  | .disposePrefix p => [.disposed p]
  | _ => []

/-- The registry with the history of its instances. -/
structure Chronicle (F : Type) where
  world : World F
  history : List LifeEvent

def Chronicle.new (F : Type) [F64 F] : Chronicle F := ⟨.new F, []⟩

def Chronicle.step (cfg : WarmConfig) (c : Chronicle F) (op : RegistryOp F) : Chronicle F :=
  ⟨c.world.step cfg op, c.history ++ c.world.events cfg op⟩

/-- A record agrees with the history. -/
structure Told (h : List LifeEvent) (k : Card) : Prop where
  attached : Attached h k.prefixId k.id k.caps
  dead : k.dead = true ↔ Marked h k.prefixId k.id
  strikes : 0 < k.caps.softBytes → (0 < k.softStrikes ↔
    ∃ a, (readings h k.prefixId k.id).getLast? = some a ∧ k.caps.softBytes < a)

/-- A history of instances with ids below `next`. -/
structure Sane (h : List LifeEvent) (next : Nat) : Prop where
  attached : ∀ {p id caps}, Attached h p id caps → id < next
  released : ∀ {p id tainted heap alive}, .released p id tainted heap alive ∈ h → id < next
  caps : ∀ {p id caps caps'}, Attached h p id caps → Attached h p id caps' → caps = caps'
  unmarked : ∀ {h₁ h₂ p id caps}, h = h₁ ++ .attached p id caps :: h₂ → ¬ Marked h₁ p id

variable {h : List LifeEvent} {next : Nat}

theorem Sane.marked {p : String} {id : Nat} (hs : Sane h next) (hm : Marked h p id) : id < next := by
  rcases hm with ⟨heap, alive, hm⟩ | ⟨tainted, heap, hm⟩ | ⟨h₁, h₂, caps, rfl, ha, -⟩ | ⟨caps, ha, -⟩
  · exact hs.released hm
  · exact hs.released hm
  · exact hs.attached (ha.mono h₂)
  · exact hs.attached ha

theorem Sane.readings {p : String} (hs : Sane h next) : readings h p next = [] := by
  rw [Iso4.readings, List.filterMap_eq_nil_iff]
  intro e he
  cases e with
  | released q i tainted heap alive =>
    have hlt := hs.released he
    exact if_neg fun hc => by omega
  | _ => rfl

/-- One more event that attaches nothing. -/
theorem Sane.concat {e : LifeEvent} (hs : Sane h next) (he : ∀ p id caps, e ≠ .attached p id caps)
    (hr : ∀ {p id tainted heap alive}, e = .released p id tainted heap alive → id < next) :
    Sane (h ++ [e]) next where
  attached := by
    intro p id caps ha
    rcases attached_concat.mp ha with ha | rfl
    · exact hs.attached ha
    · exact absurd rfl (he p id caps)
  released := by
    intro p id tainted heap alive hm
    rcases List.mem_append.mp hm with hm | hm
    · exact hs.released hm
    · exact hr (List.mem_singleton.mp hm).symm
  caps := by
    intro p id caps caps' ha ha'
    rcases attached_concat.mp ha with ha | rfl
    · rcases attached_concat.mp ha' with ha' | rfl
      · exact hs.caps ha ha'
      · exact absurd rfl (he p id caps')
    · exact absurd rfl (he p id caps)
  unmarked := by
    intro h₁ h₂ p id caps heq
    rcases concat_eq_append heq with ⟨hnil, -⟩ | ⟨m, hm, rfl⟩
    · cases hnil
    · cases m with
      | nil =>
        obtain ⟨rfl, -⟩ := List.cons.inj hm
        exact absurd rfl (he p id caps)
      | cons a m =>
        obtain ⟨rfl, -⟩ := List.cons.inj hm
        exact hs.unmarked rfl

/-- An attachment to an instance that is not marked, under its own caps. -/
theorem Sane.attach {p : String} {id : Nat} {caps : HeapCaps} {next' : Nat} (hs : Sane h next)
    (hle : next ≤ next') (hlt : id < next') (hm : ¬ Marked h p id)
    (hc : ∀ caps', Attached h p id caps' → caps' = caps) :
    Sane (h ++ [.attached p id caps]) next' where
  attached := by
    intro q j caps' ha
    rcases attached_concat.mp ha with ha | he
    · exact Nat.lt_of_lt_of_le (hs.attached ha) hle
    · cases he
      exact hlt
  released := by
    intro q j tainted heap alive hr
    rcases List.mem_append.mp hr with hr | hr
    · exact Nat.lt_of_lt_of_le (hs.released hr) hle
    · cases List.mem_singleton.mp hr
  caps := by
    intro q j c c' ha ha'
    rcases attached_concat.mp ha with ha | he
    · rcases attached_concat.mp ha' with ha' | he'
      · exact hs.caps ha ha'
      · cases he'
        exact hc c ha
    · cases he
      rcases attached_concat.mp ha' with ha' | he'
      · exact (hc c' ha').symm
      · cases he'
        rfl
  unmarked := by
    intro h₁ h₂ q j c heq
    rcases concat_eq_append heq with ⟨hnil, -⟩ | ⟨m, hmid, rfl⟩
    · cases hnil
    · cases m with
      | nil =>
        obtain ⟨he, -⟩ := List.cons.inj hmid
        cases he
        rw [List.append_nil] at hm
        exact hm
      | cons a m =>
        obtain ⟨rfl, -⟩ := List.cons.inj hmid
        exact hs.unmarked rfl

theorem Told.attach {k : Card} {p : String} {id : Nat} {caps : HeapCaps} (hk : Told h k)
    (hc : Attached h p id caps ∨ readings h p id = []) : Told (h ++ [.attached p id caps]) k where
  attached := hk.attached.mono _
  dead := hk.dead.trans (marked_attached hc).symm
  strikes := by
    rw [readings_attached]
    exact hk.strikes

theorem told_fresh {p : String} {caps : HeapCaps} (hs : Sane h next) :
    Told (h ++ [.attached p next caps]) ⟨p, next, caps, 0, false⟩ where
  attached := List.mem_append_right _ (List.mem_singleton.mpr rfl)
  dead := by
    rw [marked_attached (Or.inr hs.readings)]
    exact ⟨Bool.false_ne_true.elim, fun hm => absurd (hs.marked hm) (Nat.lt_irrefl _)⟩
  strikes := by
    intro _
    rw [readings_attached, hs.readings]
    refine ⟨fun hd => absurd hd (Nat.lt_irrefl 0), ?_⟩
    rintro ⟨a, ha, -⟩
    cases ha

theorem Told.released_other {k : Card} {p : String} {id heap : Nat} {tainted alive : Bool}
    (hk : Told h k) (hne : k.id ≠ id) : Told (h ++ [.released p id tainted heap alive]) k where
  attached := hk.attached.mono _
  dead := by
    rw [marked_released, hk.dead]
    exact (or_iff_left fun hx => hne hx.1.2.symm).symm
  strikes := by
    rw [readings_released, if_neg fun hx => hne hx.1.2.symm]
    exact hk.strikes

/-- The soft line strikes by the count exactly when it does by the history. -/
theorem softRetires_iff {p : String} {i : Instance} (report : RunReport F)
    (hk : Told h (Filed.card (p, i))) :
    i.softRetires report = true ↔
      report.tainted = false ∧ Strikes h p i.id i.caps.softBytes report.heapUsedBytes := by
  have hcount := hk.strikes
  simp only [Filed.card] at hcount
  simp only [Instance.softRetires, Bool.and_eq_true, Bool.not_eq_true', decide_eq_true_eq,
    softStrike_retires, Strikes]
  constructor
  · rintro ⟨⟨ht, hpos⟩, hover, hn⟩
    exact ⟨ht, hpos, hover, (hcount hpos).mp hn⟩
  · rintro ⟨ht, hpos, hover, hlast⟩
    exact ⟨⟨ht, hpos⟩, hover, (hcount hpos).mpr hlast⟩

theorem Told.released_self {p : String} {i : Instance} {alive : Bool} {report : RunReport F}
    (hs : Sane h next) (hk : Told h (Filed.card (p, i))) :
    Told (h ++ [.released p i.id report.tainted report.heapUsedBytes alive])
      (Filed.card (p, i.released report alive)) where
  attached := by
    have ha := hk.attached.mono [.released p i.id report.tainted report.heapUsedBytes alive]
    simp only [Filed.card, released_caps, (released_facts i report alive).1] at ha ⊢
    exact ha
  dead := by
    have hone : (∃ caps, Attached h p i.id caps ∧ Strikes h p i.id caps.softBytes
        report.heapUsedBytes) ↔ Strikes h p i.id i.caps.softBytes report.heapUsedBytes := by
      constructor
      · rintro ⟨caps, ha, hst⟩
        rwa [hs.caps ha hk.attached] at hst
      · exact fun hst => ⟨i.caps, hk.attached, hst⟩
    have hdead : i.dead = true ↔ Marked h p i.id := hk.dead
    simp only [Filed.card, (released_facts i report alive).1, marked_released, released_dead,
      Bool.or_eq_true, hdead, softRetires_iff report hk, hone, Bool.not_eq_true', and_self, true_and]
    tauto
  strikes := by
    have hcount := hk.strikes
    simp only [Filed.card] at hcount
    simp only [Filed.card, released_caps, (released_facts i report alive).1, released_softStrikes]
    intro hpos
    rw [readings_released]
    cases ht : report.tainted with
    | true =>
      have hskip : ¬ ((p = p ∧ i.id = i.id) ∧ true = false) := fun hx => by cases hx.2
      rw [if_neg hskip, Bool.not_true, Bool.false_and, if_neg Bool.false_ne_true]
      exact hcount hpos
    | false =>
      have hline : (!false && decide (i.caps.softBytes > 0)) = true := by simpa using hpos
      have hread : (p = p ∧ i.id = i.id) ∧ false = false := ⟨⟨rfl, rfl⟩, rfl⟩
      rw [if_pos hread, List.getLast?_concat, if_pos hline, softStrike_count, decide_eq_true_eq]
      constructor
      · exact fun hb => ⟨_, rfl, hb⟩
      · rintro ⟨a, ha, hb⟩
        cases ha
        exact hb

theorem Told.disposed_other {k : Card} {p : String} (hk : Told h k) (hne : k.prefixId ≠ p) :
    Told (h ++ [.disposed p]) k where
  attached := hk.attached.mono _
  dead := by
    rw [marked_disposed, hk.dead]
    exact (or_iff_left fun hx => hne hx.1.symm).symm
  strikes := by
    rw [readings_disposed]
    exact hk.strikes

theorem Told.disposed_self {p : String} {i : Instance} (hk : Told h (Filed.card (p, i))) :
    Told (h ++ [.disposed p]) (Filed.card (p, { i with dead := true })) where
  attached := hk.attached.mono _
  dead := ⟨fun _ => marked_disposed.mpr (Or.inr ⟨rfl, i.caps, hk.attached⟩), fun _ => rfl⟩
  strikes := by
    rw [readings_disposed]
    exact hk.strikes

/-! ### Runs -/

/-- The registry agrees with its history. -/
structure Chronicle.Faithful (c : Chronicle F) : Prop where
  books : c.world.registry.Balanced c.world.out c.world.oneoffs
  told : ∀ k ∈ c.world.registry.cards, Told c.history k
  sane : Sane c.history c.world.registry.nextInstanceId

theorem new_faithful : (Chronicle.new F).Faithful where
  books := new_balanced
  told k hk := by cases hk
  sane :=
    { attached := fun ha => by cases ha
      released := fun hr => by cases hr
      caps := fun ha => by cases ha
      unmarked := fun heq => by simp [Chronicle.new] at heq }

theorem Chronicle.Faithful.acquire {c : Chronicle F} {cfg : WarmConfig} {p : String} {caps : HeapCaps}
    {r : Reading F} {spawn : Except String Unit} {util : Nat → Nat} (hc : c.Faithful) :
    (c.step cfg (.acquire p caps r spawn util)).Faithful := by
  have hbooks := step_balanced cfg c.world (.acquire p caps r spawn util) hc.books
  have hadm := admits_acquire cfg c.world.registry p caps r spawn util
  have hstill : Thins c.world.registry (c.world.step cfg (.acquire p caps r spawn util)).registry →
      (c.world.events cfg (.acquire p caps r spawn util)) = [] →
      (c.step cfg (.acquire p caps r spawn util)).Faithful := by
    intro ht he
    refine ⟨hbooks, ?_, ?_⟩
    · rw [Chronicle.step, he, List.append_nil]
      exact fun k hk => hc.told k (ht.cards hk)
    · rw [Chronicle.step, he, List.append_nil, ht.next]
      exact hc.sane
  cases hans : (Iso4.acquire cfg c.world.registry p caps r spawn util).2 with
  | attached id =>
    have he : c.world.events cfg (.acquire p caps r spawn util) = [.attached p id caps] := by
      simp only [World.events, hans]
    rw [hans] at hadm
    rw [Chronicle.step, he]
    rcases hadm with ⟨ht, strikes, hk⟩ | ⟨rfl, hn, hcards⟩
    · have hown := hc.told _ hk
      have hlive : ¬ Marked c.history p id := fun hm => by cases hown.dead.mpr hm
      refine ⟨hbooks, fun k hk => (hc.told k (ht.cards hk)).attach (Or.inl hown.attached), ?_⟩
      refine hc.sane.attach (Nat.le_of_eq ht.next.symm) ?_ hlive fun caps' ha => ?_
      · exact Nat.lt_of_lt_of_eq (hc.sane.attached hown.attached) ht.next.symm
      · exact hc.sane.caps ha hown.attached
    · have hfresh : ¬ Marked c.history p c.world.registry.nextInstanceId :=
        fun hm => Nat.lt_irrefl _ (hc.sane.marked hm)
      refine ⟨hbooks, fun k hk => ?_, ?_⟩
      · rcases List.mem_cons.mp (hcards hk) with rfl | hk
        · exact told_fresh hc.sane
        · exact (hc.told k hk).attach (Or.inr hc.sane.readings)
      · have hnext : (c.world.step cfg (.acquire p caps r spawn util)).registry.nextInstanceId =
            c.world.registry.nextInstanceId + 1 := hn
        refine hc.sane.attach ?_ ?_ hfresh fun caps' ha => ?_
        · rw [hnext]
          exact Nat.le_succ _
        · rw [hnext]
          exact Nat.lt_succ_self _
        · exact absurd (hc.sane.attached ha) (Nat.lt_irrefl _)
  | cold =>
    rw [hans] at hadm
    exact hstill hadm (by simp only [World.events, hans])
  | refused message =>
    rw [hans] at hadm
    exact hstill hadm (by simp only [World.events, hans])
  | spawnFailed error =>
    rw [hans] at hadm
    exact hstill hadm (by simp only [World.events, hans])

theorem Chronicle.Faithful.release {c : Chronicle F} {cfg : WarmConfig} {k : Nat}
    {report : RunReport F} {alive : Bool} {r : Reading F} (hc : c.Faithful) :
    (c.step cfg (.release k report alive r)).Faithful := by
  have hbooks := step_balanced cfg c.world (.release k report alive r) hc.books
  cases hk : c.world.out[k]? with
  | none =>
    have hstep : c.step cfg (.release k report alive r) = c := by
      simp only [Chronicle.step, World.step, World.events, hk, List.append_nil]
    rw [hstep]
    exact hc
  | some a =>
    obtain ⟨p, id⟩ := a
    obtain ⟨hlt, hget⟩ := List.getElem?_eq_some_iff.mp hk
    have hheld : (p, id) ∈ c.world.out := List.mem_of_getElem? hk
    have hout : c.world.registry.Balanced ((p, id) :: c.world.out.eraseIdx k) c.world.oneoffs := by
      rw [← hget]
      exact Books.permOut hc.books (List.getElem_cons_eraseIdx_perm hlt).symm
    have hreleases : Releases c.world.registry (Iso4.release cfg c.world.registry p id report alive r)
        p id report alive := releases_release hout
    obtain ⟨hnext, hcards⟩ := hreleases
    have hreg : (c.world.step cfg (.release k report alive r)).registry =
        Iso4.release cfg c.world.registry p id report alive r := by simp only [World.step, hk]
    have he : c.world.events cfg (.release k report alive r) =
        [.released p id report.tainted report.heapUsedBytes alive] := by
      simp only [World.events, hk]
    rw [Chronicle.step, he]
    refine ⟨hbooks, ?_, ?_⟩
    · dsimp only
      rw [hreg]
      intro j hj
      rcases hcards j hj with ⟨hj, hne⟩ | ⟨i, hi, rfl, rfl⟩
      · exact (hc.told j hj).released_other hne
      · exact (hc.told _ hi).released_self hc.sane
    · dsimp only
      rw [hreg, hnext]
      refine hc.sane.concat (fun _ _ _ => LifeEvent.noConfusion) ?_
      rintro q j tainted heap alive' heq
      cases heq
      -- The record of an outstanding attachment is older than the next id.
      obtain ⟨f, hf, hkey⟩ := hc.books.held (p, id) hheld
      obtain ⟨rfl, rfl⟩ := Prod.mk.inj hkey
      exact hc.books.fresh f hf

theorem step_faithful (cfg : WarmConfig) (c : Chronicle F) (op : RegistryOp F) (hc : c.Faithful) :
    (c.step cfg op).Faithful := by
  have hbooks := step_balanced cfg c.world op hc.books
  have hstill : Thins c.world.registry (c.world.step cfg op).registry →
      c.world.events cfg op = [] → (c.step cfg op).Faithful := by
    intro ht he
    refine ⟨hbooks, ?_, ?_⟩
    · rw [Chronicle.step, he, List.append_nil]
      exact fun k hk => hc.told k (ht.cards hk)
    · rw [Chronicle.step, he, List.append_nil, ht.next]
      exact hc.sane
  cases op with
  | acquire p caps r spawn util => exact hc.acquire
  | release k report alive r => exact hc.release
  | reserveOneoff cap r => exact hstill (thins_reserveOneoff cfg _ cap r) rfl
  | releaseOneoff tainted wallMs cpuMs r =>
    refine hstill ?_ rfl
    unfold World.step
    dsimp only
    split
    · exact Thins.refl _
    · exact thins_releaseOneoff cfg _ tainted wallMs cpuMs r
  | disposePrefix p =>
    refine ⟨hbooks, fun k hk => ?_, ?_⟩
    · rcases cards_disposePrefix hk with ⟨hk, hne⟩ | ⟨i, hi, rfl⟩
      · exact (hc.told k hk).disposed_other hne
      · exact (hc.told _ hi).disposed_self
    · rw [show (c.step cfg (.disposePrefix p)).world.registry.nextInstanceId = _ from
        next_disposePrefix _ p]
      exact hc.sane.concat (fun _ _ _ => LifeEvent.noConfusion) fun heq => by cases heq

/-- In every history: an instance that was marked dead is not attached to again,
and its record stays exactly while runs are attached to it; a record is dead
exactly when the history marks it; and a release retires by the soft line
exactly when it and the last untainted release before it were above a nonzero
line. -/
theorem instance_retirement (cfg : WarmConfig) (ops : List (RegistryOp F)) :
    let c := Execution.exec (Chronicle.step cfg) (Chronicle.new F) ops
    (∀ h₁ h₂ p id caps, c.history = h₁ ++ .attached p id caps :: h₂ → ¬ Marked h₁ p id) ∧
    (∀ p id, Marked c.history p id →
      ((∃ f ∈ c.world.registry.records, (f.1, f.2.id) = (p, id)) ↔ (p, id) ∈ c.world.out)) ∧
    (∀ f ∈ c.world.registry.records, f.2.dead = true ↔ Marked c.history f.1 f.2.id) ∧
    (∀ f ∈ c.world.registry.records, ∀ report : RunReport F, f.2.softRetires report = true ↔
      report.tainted = false ∧
        Strikes c.history f.1 f.2.id f.2.caps.softBytes report.heapUsedBytes) := by
  intro c
  have hc : c.Faithful := Execution.exec_invariant (step_faithful cfg) new_faithful ops
  have htold : ∀ f ∈ c.world.registry.records, Told c.history (Filed.card f) :=
    fun f hf => hc.told _ (mem_cards.mpr ⟨f, hf, rfl⟩)
  refine ⟨fun h₁ h₂ p id caps heq => hc.sane.unmarked heq, fun p id hm => ?_, ?_, ?_⟩
  · constructor
    · rintro ⟨f, hf, hkey⟩
      obtain ⟨rfl, rfl⟩ := Prod.mk.inj hkey
      -- A dead record has runs attached.
      have hrun := hc.books.dead f hf ((htold f hf).dead.mpr hm)
      rw [hc.books.inFlight f hf] at hrun
      exact List.count_pos_iff.mp hrun
    · exact hc.books.held (p, id)
  · exact fun f hf => (htold f hf).dead
  · exact fun f hf report => softRetires_iff report (htold f hf)

end Registry

end Iso4
