/-
Every history of a run's timer table (`crates/core/src/v8/timers.rs`): any `setTimeout`,
`clearTimeout`, `peek_deadline` and `pop_earliest`, in any order.

The table answers from an id map and a heap that keeps the keys of cleared timers until they
reach its top.  What a history leaves armed is read off its events (`liveTimers`); the id map holds
exactly these timers (`Tracks`), and the heap has a key for each of them, numbered in the
order of their creation.

* `TimerEvent.Lawful` — what an event may say after the events before it;
* `step_tracks` — one call;
* `timer_history` — every run of fewer than 2^32 registrations.
-/
import Iso4.Timers
import Iso4.Lib.Execution
import Iso4.Lib.JsNumber
import Mathlib.Data.List.Induction

namespace Iso4

open Js

/-- The order of creation in a key. -/
def TimerKey.seq (k : TimerKey) : Nat := (ofLex (ofLex k).2).1

@[simp] theorem TimerKey.seq_mk (d s i : Nat) : (TimerKey.mk d s i).seq = s := rfl

theorem TimerKey.mk_eta (k : TimerKey) : TimerKey.mk k.deadline k.seq k.id = k := rfl

/-- Fire order: by deadline, then by creation. -/
theorem TimerKey.le_iff {k l : TimerKey} :
    k ≤ l ↔ k.deadline < l.deadline ∨
      k.deadline = l.deadline ∧ (k.seq < l.seq ∨ k.seq = l.seq ∧ k.id ≤ l.id) := by
  rw [Prod.Lex.le_iff]
  show _ < _ ∨ _ = _ ∧ (ofLex k).2 ≤ (ofLex l).2 ↔ _
  rw [Prod.Lex.le_iff]
  rfl

namespace TimerTable

/-- The table as `peek_deadline` leaves it. -/
def trimmed (t : TimerTable) : TimerTable :=
  { t with
    order := t.pruned
    queued := by
      intro id d h
      obtain ⟨seq, hmem⟩ := t.queued id d h
      exact ⟨seq, MinHeap.mem_prune hmem (by simp [pending, h])⟩ }

/-- `pop_earliest`: the key of the timer it returns, and the table it leaves. -/
def fire (t : TimerTable) : Option TimerKey × TimerTable :=
  match t.popEarliest with
  | none => (none, t.trimmed)
  | some t' => (t.pruned.peek, t')

end TimerTable

/-- The id that `clearTimeout` reads from its argument, if it is one. -/
def timerId : Option JsNumber → Option Nat
  | some (.finite negative num den) =>
    if negative = false ∧ num % den = 0 ∧ 1 ≤ num / den ∧ num / den ≤ 2 ^ 32 - 1 then
      some (num / den)
    else none
  | _ => none

/-! ### Histories -/

inductive TimerOp where
  | setTimeout (deadline : Nat)
  | clearTimeout (argument : Option JsNumber)
  | peekDeadline
  | popEarliest
  deriving DecidableEq

/-- What a call did; a timer is named by the id it was given and its deadline. -/
inductive TimerEvent where
  | armed (id deadline : Nat)
  | refused
  | ignored
  | cleared (id : Nat) (removed : Bool)
  | peeked (earliest : Option Nat)
  | fired (timer : Option (Nat × Nat))
  deriving DecidableEq

/-- A table and the events so far, newest first. -/
structure TimerRun where
  table : TimerTable
  log : List TimerEvent

namespace TimerRun

def start : TimerRun := ⟨TimerTable.empty, []⟩

def step (w : TimerRun) : TimerOp → TimerRun
  | .setTimeout deadline =>
    match w.table.setTimeout deadline with
    | none => ⟨w.table, .refused :: w.log⟩
    | some t => ⟨t, .armed t.lastId deadline :: w.log⟩
  | .clearTimeout argument =>
    match timerId argument with
    | none => ⟨w.table, .ignored :: w.log⟩
    | some id =>
      match w.table.clearTimeout id with
      | none => ⟨w.table, .cleared id false :: w.log⟩
      | some t => ⟨t, .cleared id true :: w.log⟩
  | .peekDeadline => ⟨w.table.trimmed, .peeked w.table.peekDeadline :: w.log⟩
  | .popEarliest =>
    ⟨w.table.fire.2, .fired (w.table.fire.1.map fun k => (k.id, k.deadline)) :: w.log⟩

/-- The table and its events after some calls. -/
def after (ops : List TimerOp) : TimerRun := Execution.exec step start ops

end TimerRun

/-- The ids given out, newest first. -/
def armedIds : List TimerEvent → List Nat
  | [] => []
  | .armed id _ :: log => id :: armedIds log
  | _ :: log => armedIds log

/-- The timers that were armed and neither cleared nor returned since. -/
def liveTimers : List TimerEvent → List (Nat × Nat)
  | [] => []
  | .armed id deadline :: log => (id, deadline) :: liveTimers log
  | .cleared id _ :: log => (liveTimers log).filter fun p => p.1 ≠ id
  | .fired (some timer) :: log => (liveTimers log).filter fun p => p.1 ≠ timer.1
  | _ :: log => liveTimers log

/-- Due before, or at the same instant and created before. -/
def Precedes (p q : Nat × Nat) : Prop := p.2 < q.2 ∨ p.2 = q.2 ∧ p.1 ≤ q.1

/-- What an event may say after the events before it. -/
def TimerEvent.Lawful (before : List TimerEvent) : TimerEvent → Prop
  | .armed id _ => id ∉ armedIds before
  | .refused => maxPendingTimers ≤ (liveTimers before).length
  | .ignored => True
  | .cleared id removed => removed = true ↔ id ∈ (liveTimers before).map Prod.fst
  | .peeked none => liveTimers before = []
  | .peeked (some earliest) =>
    (∃ id, (id, earliest) ∈ liveTimers before) ∧ ∀ p ∈ liveTimers before, earliest ≤ p.2
  | .fired none => liveTimers before = []
  | .fired (some timer) => timer ∈ liveTimers before ∧ ∀ p ∈ liveTimers before, Precedes timer p

/-- The event ends the timer `id`. -/
def TimerEvent.Ends (id : Nat) : TimerEvent → Prop
  | .cleared id' _ => id' = id
  | .fired (some timer) => timer.1 = id
  | _ => False

/-! ### Reading a history -/

theorem armedIds_append (as bs : List TimerEvent) :
    armedIds (as ++ bs) = armedIds as ++ armedIds bs := by
  induction as with
  | nil => rfl
  | cons e as ih => cases e <;> simp [armedIds, ih]

theorem armed_of_live {log : List TimerEvent} {p : Nat × Nat} (h : p ∈ liveTimers log) :
    p.1 ∈ armedIds log := by
  induction log with
  | nil => simp [liveTimers] at h
  | cons e log ih =>
    cases e with
    | armed id deadline =>
      simp only [liveTimers, List.mem_cons] at h
      rcases h with rfl | h
      · exact List.mem_cons_self
      · exact List.mem_cons_of_mem _ (ih h)
    | cleared id removed =>
      simp only [liveTimers, List.mem_filter] at h
      exact ih h.1
    | fired timer =>
      cases timer with
      | none => exact ih h
      | some timer =>
        simp only [liveTimers, List.mem_filter] at h
        exact ih h.1
    | refused => exact ih h
    | ignored => exact ih h
    | peeked earliest => exact ih h

theorem live_nodup {log : List TimerEvent} (h : (armedIds log).Nodup) :
    ((liveTimers log).map Prod.fst).Nodup := by
  induction log with
  | nil => simp [liveTimers]
  | cons e log ih =>
    have hfilter : ∀ id, ((liveTimers log).map Prod.fst).Nodup →
        (((liveTimers log).filter fun p => p.1 ≠ id).map Prod.fst).Nodup := by
      intro id hnodup
      exact hnodup.sublist (List.Sublist.map _ List.filter_sublist)
    cases e with
    | armed id deadline =>
      simp only [armedIds, List.nodup_cons] at h
      simp only [liveTimers, List.map_cons, List.nodup_cons]
      refine ⟨fun hid => h.1 ?_, ih h.2⟩
      obtain ⟨p, hp, rfl⟩ := List.mem_map.mp hid
      exact armed_of_live hp
    | cleared id removed => exact hfilter id (ih h)
    | fired timer =>
      cases timer with
      | none => exact ih h
      | some timer => exact hfilter timer.1 (ih h)
    | refused => exact ih h
    | ignored => exact ih h
    | peeked earliest => exact ih h

/-- An id that was given out and is not armed is never armed again. -/
theorem not_live_later {after before : List TimerEvent} {id : Nat}
    (hnodup : (armedIds (after ++ before)).Nodup) (harmed : id ∈ armedIds before)
    (hout : id ∉ (liveTimers before).map Prod.fst) : id ∉ (liveTimers (after ++ before)).map Prod.fst := by
  induction after with
  | nil => exact hout
  | cons e after ih =>
    have hkept : (armedIds (after ++ before)).Nodup → ∀ (f : Nat × Nat → Bool),
        id ∉ ((liveTimers (after ++ before)).filter f).map Prod.fst := by
      intro hn f hmem
      obtain ⟨p, hp, rfl⟩ := List.mem_map.mp hmem
      exact ih hn (List.mem_map.mpr ⟨p, (List.mem_filter.mp hp).1, rfl⟩)
    cases e with
    | armed id' deadline =>
      simp only [List.cons_append, armedIds, List.nodup_cons] at hnodup
      simp only [List.cons_append, liveTimers, List.map_cons, List.mem_cons, not_or]
      refine ⟨?_, ih hnodup.2⟩
      rintro rfl
      refine hnodup.1 ?_
      rw [armedIds_append]
      exact List.mem_append_right _ harmed
    | cleared id' removed => exact hkept hnodup _
    | fired timer =>
      cases timer with
      | none => exact ih hnodup
      | some timer => exact hkept hnodup _
    | refused => exact ih hnodup
    | ignored => exact ih hnodup
    | peeked earliest => exact ih hnodup

/-- An event that ends a timer takes it out of those that are armed. -/
theorem TimerEvent.Ends.not_live {e : TimerEvent} {id : Nat} (h : e.Ends id)
    (before : List TimerEvent) : id ∉ (liveTimers (e :: before)).map Prod.fst := by
  intro hmem
  obtain ⟨p, hp, rfl⟩ := List.mem_map.mp hmem
  cases e with
  | cleared id' removed =>
    simp only [TimerEvent.Ends] at h
    simp [liveTimers, h] at hp
  | fired timer =>
    cases timer with
    | none => exact h
    | some timer =>
      simp only [TimerEvent.Ends] at h
      simp [liveTimers, h] at hp
  | armed id' deadline => exact h
  | refused => exact h
  | ignored => exact h
  | peeked earliest => exact h

/-! ### The table behind a history -/

/-- The table is what the events leave. -/
structure TimerRun.Tracks (w : TimerRun) : Prop where
  lastId : w.table.lastId = (armedIds w.log).length
  nextSeq : w.table.nextSeq = (armedIds w.log).length
  ids : ∀ id ∈ armedIds w.log, id ≤ (armedIds w.log).length
  nodup : (armedIds w.log).Nodup
  kept : ∀ id d, w.table.entries.lookup id = some d ↔ (id, d) ∈ liveTimers w.log
  keys : ∀ k ∈ w.table.order, k.id = k.seq + 1

namespace TimerRun

variable {w w' : TimerRun}

theorem Tracks.mem_keys (h : w.Tracks) (id : Nat) :
    id ∈ w.table.entries.keys ↔ id ∈ (liveTimers w.log).map Prod.fst := by
  rw [← AList.mem_keys, ← AList.lookup_isSome, Option.isSome_iff_exists, List.mem_map]
  constructor
  · rintro ⟨d, hd⟩
    exact ⟨(id, d), (h.kept id d).mp hd, rfl⟩
  · rintro ⟨⟨id', d⟩, hp, rfl⟩
    exact ⟨d, (h.kept _ d).mpr hp⟩

theorem Tracks.count (h : w.Tracks) : w.table.entries.keys.length = (liveTimers w.log).length := by
  have hperm : w.table.entries.keys.Perm ((liveTimers w.log).map Prod.fst) :=
    (List.perm_ext_iff_of_nodup w.table.entries.keys_nodup (live_nodup h.nodup)).mpr h.mem_keys
  rw [hperm.length_eq, List.length_map]

/-- A timer that is armed has its key in the heap. -/
theorem Tracks.queued (h : w.Tracks) {p : Nat × Nat} (hp : p ∈ liveTimers w.log) :
    ∃ k ∈ w.table.order, k.id = p.1 ∧ k.deadline = p.2 ∧ w.table.pending k = true := by
  have hlookup : w.table.entries.lookup p.1 = some p.2 := (h.kept p.1 p.2).mpr hp
  obtain ⟨seq, hmem⟩ := w.table.queued p.1 p.2 hlookup
  exact ⟨_, hmem, rfl, rfl, by simp [TimerTable.pending, hlookup]⟩

/-- The top of the trimmed heap is the earliest of the armed timers. -/
theorem Tracks.peek_some (h : w.Tracks) {k : TimerKey} (hk : w.table.pruned.peek = some k) :
    (k.id, k.deadline) ∈ liveTimers w.log ∧ ∀ p ∈ liveTimers w.log, Precedes (k.id, k.deadline) p := by
  constructor
  · have hvalid := MinHeap.valid_of_peek_prune hk
    simp only [TimerTable.pending, beq_iff_eq] at hvalid
    exact (h.kept _ _).mp hvalid
  · intro p hp
    obtain ⟨l, hl, hid, hdeadline, hvalid⟩ := h.queued hp
    have hle := TimerKey.le_iff.mp (MinHeap.peek_prune_le hk hl hvalid)
    have hkseq := h.keys k (MinHeap.mem_of_mem_prune (MinHeap.mem_of_peek hk))
    have hlseq := h.keys l hl
    show k.deadline < p.2 ∨ k.deadline = p.2 ∧ k.id ≤ p.1
    omega

theorem Tracks.peek_none (h : w.Tracks) (hk : w.table.pruned.peek = none) : liveTimers w.log = [] := by
  refine List.eq_nil_iff_forall_not_mem.mpr fun p hp => ?_
  obtain ⟨l, hl, -, -, hvalid⟩ := h.queued hp
  have := MinHeap.peek_prune_none hk hl
  simp [hvalid] at this

end TimerRun

namespace TimerTable

variable {t : TimerTable}

/-- What a `setTimeout` below the cap does. -/
theorem setTimeout_some (h : ¬ t.entries.keys.length ≥ maxPendingTimers) (deadline : Nat) :
    ∃ t', t.setTimeout deadline = some t' ∧ t'.lastId = max ((t.lastId + 1) % 2 ^ 32) 1 ∧
      t'.nextSeq = t.nextSeq + 1 ∧ t'.entries = t.entries.insert t'.lastId deadline ∧
      t'.order = t.order.push (TimerKey.mk deadline t.nextSeq t'.lastId) := by
  unfold setTimeout
  rw [if_neg h]
  exact ⟨_, rfl, rfl, rfl, rfl, rfl⟩

/-- A clear takes the id out of the map and leaves the heap. -/
theorem clearTimeout_some {id : Nat} (h : (t.entries.lookup id).isSome) :
    ∃ t', t.clearTimeout id = some t' ∧ t'.lastId = t.lastId ∧ t'.nextSeq = t.nextSeq ∧
      t'.entries = t.entries.erase id ∧ t'.order = t.order := by
  unfold clearTimeout
  rw [if_pos h]
  exact ⟨_, rfl, rfl, rfl, rfl, rfl⟩

theorem fire_none (h : t.pruned.peek = none) : t.fire = (none, t.trimmed) := by
  unfold fire popEarliest
  split
  · rfl
  · next heq =>
    split at heq
    · simp at heq
    · next hsome =>
      rw [h] at hsome
      simp at hsome

/-- A fire takes the top of the trimmed heap, out of the id map too. -/
theorem fire_some {k : TimerKey} (h : t.pruned.peek = some k) :
    t.fire.1 = some k ∧ t.fire.2.lastId = t.lastId ∧ t.fire.2.nextSeq = t.nextSeq ∧
      t.fire.2.entries = t.entries.erase k.id ∧ t.fire.2.order = t.pruned.pop := by
  unfold fire popEarliest
  split
  · next heq =>
    split at heq
    · next hnone =>
      rw [h] at hnone
      simp at hnone
    · simp at heq
  · next t' heq =>
    split at heq
    · simp at heq
    · next k' hsome =>
      rw [h] at hsome
      simp only [Option.some.injEq] at hsome heq
      subst hsome heq
      exact ⟨h, rfl, rfl, rfl, rfl⟩

theorem fire_fst (t : TimerTable) : t.fire.1 = t.pruned.peek := by
  cases h : t.pruned.peek with
  | none => rw [fire_none h]
  | some k => exact (fire_some h).1

end TimerTable

/-! ### One call -/

section Step

variable {w w' : TimerRun}

theorem mem_live_filter {id : Nat} {p : Nat × Nat} {log : List TimerEvent} :
    p ∈ (liveTimers log).filter (fun p => p.1 ≠ id) ↔ p ∈ liveTimers log ∧ p.1 ≠ id := by
  simp

/-- The id map without `id` holds what is left of the history. -/
theorem TimerRun.Tracks.erase (h : w.Tracks) (id id' d : Nat) :
    (w.table.entries.erase id).lookup id' = some d ↔
      (id', d) ∈ (liveTimers w.log).filter fun p => p.1 ≠ id := by
  rw [mem_live_filter, ← h.kept]
  by_cases hid : id' = id
  · subst hid
    simp
  · simp [AList.lookup_erase_ne hid, hid]

theorem armedIds_cons (e : TimerEvent) (log : List TimerEvent) :
    (armedIds log).length ≤ (armedIds (e :: log)).length := by
  cases e <;> simp [armedIds]

/-- A call that arms nothing leaves the ids as they are. -/
theorem TimerRun.Tracks.same {t : TimerTable} {e : TimerEvent} (h : w.Tracks)
    (hids : armedIds (e :: w.log) = armedIds w.log) (hlast : t.lastId = w.table.lastId)
    (hseq : t.nextSeq = w.table.nextSeq)
    (hkept : ∀ id d, t.entries.lookup id = some d ↔ (id, d) ∈ liveTimers (e :: w.log))
    (hkeys : ∀ k ∈ t.order, k ∈ w.table.order) : TimerRun.Tracks ⟨t, e :: w.log⟩ where
  lastId := by rw [hids, ← h.lastId, hlast]
  nextSeq := by rw [hids, ← h.nextSeq, hseq]
  ids := by rw [hids]; exact h.ids
  nodup := by rw [hids]; exact h.nodup
  kept := hkept
  keys := fun k hk => h.keys k (hkeys k hk)

theorem TimerRun.Tracks.setTimeout (h : w.Tracks) (deadline : Nat)
    (hcount : (armedIds (w.step (.setTimeout deadline)).log).length < 2 ^ 32) :
    (w.step (.setTimeout deadline)).Tracks ∧
      ∃ e, (w.step (.setTimeout deadline)).log = e :: w.log ∧ e.Lawful w.log := by
  by_cases hfull : w.table.entries.keys.length ≥ maxPendingTimers
  · have hstep : w.step (.setTimeout deadline) = ⟨w.table, .refused :: w.log⟩ := by
      simp [TimerRun.step, TimerTable.setTimeout, hfull]
    rw [hstep]
    refine ⟨h.same rfl rfl rfl h.kept fun k hk => hk, _, rfl, ?_⟩
    show maxPendingTimers ≤ (liveTimers w.log).length
    rw [← h.count]
    exact hfull
  · obtain ⟨t, ht, hlast, hseq, hentries, horder⟩ := TimerTable.setTimeout_some hfull deadline
    have hstep : w.step (.setTimeout deadline) = ⟨t, .armed t.lastId deadline :: w.log⟩ := by
      simp [TimerRun.step, ht]
    rw [hstep] at hcount ⊢
    simp only [armedIds, List.length_cons] at hcount
    -- Ids do not wrap below 2^32 registrations.
    have hid : t.lastId = (armedIds w.log).length + 1 := by
      rw [hlast, h.lastId, Nat.mod_eq_of_lt hcount]
      omega
    have hfresh : t.lastId ∉ armedIds w.log := by
      intro hmem
      have := h.ids _ hmem
      omega
    refine ⟨⟨?_, ?_, ?_, ?_, ?_, ?_⟩, _, rfl, hfresh⟩
    · rw [hid]
      simp [armedIds]
    · rw [hseq]
      simp [armedIds, h.nextSeq]
    · intro id hmem
      simp only [armedIds, List.mem_cons, List.length_cons] at hmem ⊢
      rcases hmem with rfl | hmem
      · exact hid.le
      · exact Nat.le_succ_of_le (h.ids id hmem)
    · exact List.nodup_cons.mpr ⟨hfresh, h.nodup⟩
    · intro id d
      simp only [liveTimers, List.mem_cons, Prod.mk.injEq]
      rw [hentries, ← h.kept]
      by_cases heq : id = t.lastId
      · subst heq
        rw [AList.lookup_insert]
        have hnone : w.table.entries.lookup t.lastId ≠ some d := by
          intro hsome
          exact hfresh (armed_of_live ((h.kept _ _).mp hsome))
        simp [hnone, eq_comm]
      · rw [AList.lookup_insert_ne heq]
        simp [heq]
    · intro k hk
      rw [horder, MinHeap.mem_push] at hk
      rcases hk with rfl | hk
      · rw [TimerKey.id_mk, TimerKey.seq_mk, hid, h.nextSeq]
      · exact h.keys k hk

theorem TimerRun.Tracks.clearTimeout (h : w.Tracks) (argument : Option JsNumber) :
    (w.step (.clearTimeout argument)).Tracks ∧
      ∃ e, (w.step (.clearTimeout argument)).log = e :: w.log ∧ e.Lawful w.log := by
  cases hid : timerId argument with
  | none =>
    have hstep : w.step (.clearTimeout argument) = ⟨w.table, .ignored :: w.log⟩ := by
      simp [TimerRun.step, hid]
    rw [hstep]
    exact ⟨h.same rfl rfl rfl h.kept fun k hk => hk, _, rfl, trivial⟩
  | some id =>
    have hmem : id ∈ (liveTimers w.log).map Prod.fst ↔ (w.table.entries.lookup id).isSome := by
      rw [← h.mem_keys, ← AList.mem_keys, AList.lookup_isSome]
    by_cases hsome : (w.table.entries.lookup id).isSome
    · obtain ⟨t, ht, hlast, hseq, hentries, horder⟩ := TimerTable.clearTimeout_some hsome
      have hstep : w.step (.clearTimeout argument) = ⟨t, .cleared id true :: w.log⟩ := by
        simp [TimerRun.step, hid, ht]
      rw [hstep]
      refine ⟨h.same rfl hlast hseq (fun id' d => ?_) fun k hk => ?_, _, rfl, ?_⟩
      · rw [hentries]
        exact h.erase id id' d
      · rw [horder] at hk
        exact hk
      · exact iff_of_true rfl (hmem.mpr hsome)
    · have ht : w.table.clearTimeout id = none := by simp [TimerTable.clearTimeout, hsome]
      have hstep : w.step (.clearTimeout argument) = ⟨w.table, .cleared id false :: w.log⟩ := by
        simp [TimerRun.step, hid, ht]
      rw [hstep]
      refine ⟨h.same rfl rfl rfl (fun id' d => ?_) fun k hk => hk, _, rfl, ?_⟩
      · show _ ↔ (id', d) ∈ (liveTimers w.log).filter fun p => p.1 ≠ id
        rw [mem_live_filter, ← h.kept]
        constructor
        · intro hlookup
          refine ⟨hlookup, ?_⟩
          rintro rfl
          simp [hlookup] at hsome
        · exact fun hlookup => hlookup.1
      · exact iff_of_false (by simp) fun hin => hsome (hmem.mp hin)

theorem TimerRun.Tracks.peekDeadline (h : w.Tracks) :
    (w.step .peekDeadline).Tracks ∧
      ∃ e, (w.step .peekDeadline).log = e :: w.log ∧ e.Lawful w.log := by
  refine ⟨h.same rfl rfl rfl h.kept fun k hk => MinHeap.mem_of_mem_prune hk, _, rfl, ?_⟩
  unfold TimerTable.peekDeadline
  cases hk : w.table.pruned.peek with
  | none => exact h.peek_none hk
  | some k =>
    obtain ⟨hmem, hleast⟩ := h.peek_some hk
    refine ⟨⟨k.id, hmem⟩, fun p hp => ?_⟩
    have := hleast p hp
    simp only [Precedes] at this
    omega

theorem TimerRun.Tracks.popEarliest (h : w.Tracks) :
    (w.step .popEarliest).Tracks ∧
      ∃ e, (w.step .popEarliest).log = e :: w.log ∧ e.Lawful w.log := by
  cases hk : w.table.pruned.peek with
  | none =>
    have hstep : w.step .popEarliest = ⟨w.table.trimmed, .fired none :: w.log⟩ := by
      simp [TimerRun.step, TimerTable.fire_none hk]
    rw [hstep]
    exact ⟨h.same rfl rfl rfl h.kept fun k hk => MinHeap.mem_of_mem_prune hk, _, rfl,
      h.peek_none hk⟩
  | some k =>
    obtain ⟨hfst, hlast, hseq, hentries, horder⟩ := TimerTable.fire_some hk
    have hstep : w.step .popEarliest =
        ⟨w.table.fire.2, .fired (some (k.id, k.deadline)) :: w.log⟩ := by
      simp [TimerRun.step, hfst]
    rw [hstep]
    refine ⟨h.same rfl hlast hseq (fun id d => ?_) fun l hl => ?_, _, rfl, h.peek_some hk⟩
    · rw [hentries]
      exact h.erase k.id id d
    · rw [horder] at hl
      exact MinHeap.mem_of_mem_prune (MinHeap.mem_of_mem_pop hl)

/-- The step lemma. -/
theorem step_tracks (h : w.Tracks) (op : TimerOp)
    (hcount : (armedIds (w.step op).log).length < 2 ^ 32) :
    (w.step op).Tracks ∧ ∃ e, (w.step op).log = e :: w.log ∧ e.Lawful w.log := by
  cases op with
  | setTimeout deadline => exact h.setTimeout deadline hcount
  | clearTimeout argument => exact h.clearTimeout argument
  | peekDeadline => exact h.peekDeadline
  | popEarliest => exact h.popEarliest

theorem setTimeout_log (w : TimerRun) (deadline : Nat) :
    (w.step (.setTimeout deadline)).log =
      (if w.table.entries.keys.length ≥ maxPendingTimers then .refused
        else .armed (max ((w.table.lastId + 1) % 2 ^ 32) 1) deadline) :: w.log := by
  by_cases hfull : w.table.entries.keys.length ≥ maxPendingTimers
  · simp [TimerRun.step, TimerTable.setTimeout, hfull]
  · simp [TimerRun.step, TimerTable.setTimeout, hfull]

theorem clearTimeout_log (w : TimerRun) {argument : Option JsNumber} {id : Nat}
    (hid : timerId argument = some id) :
    (w.step (.clearTimeout argument)).log =
      .cleared id (w.table.entries.lookup id).isSome :: w.log := by
  by_cases hsome : (w.table.entries.lookup id).isSome
  · simp [TimerRun.step, hid, TimerTable.clearTimeout, hsome]
  · simp [TimerRun.step, hid, TimerTable.clearTimeout, hsome]

/-- Two tables whose histories leave the same timers answer a call alike. -/
theorem same_event (h : w.Tracks) (h' : w'.Tracks) (hlive : liveTimers w.log = liveTimers w'.log)
    (hids : armedIds w.log = armedIds w'.log) (op : TimerOp) :
    ∃ e, (w.step op).log = e :: w.log ∧ (w'.step op).log = e :: w'.log := by
  have hlast : w.table.lastId = w'.table.lastId := by rw [h.lastId, h'.lastId, hids]
  have hlookup : ∀ id, w.table.entries.lookup id = w'.table.entries.lookup id := by
    intro id
    refine Option.ext fun d => ?_
    show w.table.entries.lookup id = some d ↔ w'.table.entries.lookup id = some d
    rw [h.kept, h'.kept, hlive]
  have hpeek : (w.table.pruned.peek.map fun k => (k.id, k.deadline)) =
      w'.table.pruned.peek.map fun k => (k.id, k.deadline) := by
    cases hk : w.table.pruned.peek with
    | none =>
      have hempty := h.peek_none hk
      cases hk' : w'.table.pruned.peek with
      | none => rfl
      | some k' =>
        have hmem := (h'.peek_some hk').1
        rw [← hlive, hempty] at hmem
        simp at hmem
    | some k =>
      obtain ⟨hmem, hleast⟩ := h.peek_some hk
      cases hk' : w'.table.pruned.peek with
      | none =>
        rw [hlive, h'.peek_none hk'] at hmem
        simp at hmem
      | some k' =>
        obtain ⟨hmem', hleast'⟩ := h'.peek_some hk'
        have hle := hleast _ (hlive ▸ hmem')
        have hle' := hleast' _ (hlive ▸ hmem)
        simp only [Precedes] at hle hle'
        simp only [Option.map_some, Option.some.injEq, Prod.mk.injEq]
        omega
  cases op with
  | setTimeout deadline =>
    have hlength : w.table.entries.keys.length = w'.table.entries.keys.length := by
      rw [h.count, h'.count, hlive]
    exact ⟨_, setTimeout_log w deadline, by rw [setTimeout_log, hlength, hlast]⟩
  | clearTimeout argument =>
    cases hid : timerId argument with
    | none => exact ⟨.ignored, by simp [TimerRun.step, hid], by simp [TimerRun.step, hid]⟩
    | some id => exact ⟨_, clearTimeout_log w hid, by rw [clearTimeout_log w' hid, hlookup]⟩
  | peekDeadline =>
    have hdeadline : w.table.peekDeadline = w'.table.peekDeadline := by
      have := congrArg (Option.map Prod.snd) hpeek
      rwa [Option.map_map, Option.map_map] at this
    exact ⟨_, rfl, by rw [hdeadline]; rfl⟩
  | popEarliest =>
    refine ⟨_, rfl, ?_⟩
    rw [TimerTable.fire_fst, hpeek, ← TimerTable.fire_fst]
    rfl

end Step

/-! ### Every history -/

def TimerOp.isPeek : TimerOp → Bool
  | .peekDeadline => true
  | _ => false

def TimerEvent.isPeek : TimerEvent → Bool
  | .peeked _ => true
  | _ => false

theorem live_filter (log : List TimerEvent) :
    liveTimers (log.filter fun e => !e.isPeek) = liveTimers log ∧
      armedIds (log.filter fun e => !e.isPeek) = armedIds log := by
  induction log with
  | nil => exact ⟨rfl, rfl⟩
  | cons e log ih =>
    obtain ⟨hlive, hids⟩ := ih
    by_cases hpeek : e.isPeek = true
    · cases e with
      | peeked earliest => exact ⟨hlive, hids⟩
      | armed id deadline => simp [TimerEvent.isPeek] at hpeek
      | cleared id removed => simp [TimerEvent.isPeek] at hpeek
      | fired timer => simp [TimerEvent.isPeek] at hpeek
      | refused => simp [TimerEvent.isPeek] at hpeek
      | ignored => simp [TimerEvent.isPeek] at hpeek
    · rw [List.filter_cons_of_pos (by simp [hpeek])]
      cases e with
      | fired timer => cases timer <;> simp only [liveTimers, armedIds, hlive, hids, and_self]
      | _ => simp only [liveTimers, armedIds, hlive, hids, and_self]

namespace TimerRun

theorem start_tracks : start.Tracks where
  lastId := rfl
  nextSeq := rfl
  ids := by simp [start, armedIds]
  nodup := by simp [start, armedIds]
  kept := by simp [start, liveTimers, TimerTable.empty]
  keys := by
    intro k hk
    exact absurd hk (MinHeap.not_mem_empty k)

theorem after_concat (ops : List TimerOp) (op : TimerOp) :
    after (ops ++ [op]) = (after ops).step op := Execution.exec_append _ ops [op]

theorem log_step (w : TimerRun) (op : TimerOp) :
    ∃ e, (w.step op).log = e :: w.log ∧ e.isPeek = op.isPeek := by
  cases op with
  | setTimeout deadline =>
    simp only [step]
    split
    · exact ⟨_, rfl, rfl⟩
    · exact ⟨_, rfl, rfl⟩
  | clearTimeout argument =>
    simp only [step]
    split
    · exact ⟨_, rfl, rfl⟩
    · split
      · exact ⟨_, rfl, rfl⟩
      · exact ⟨_, rfl, rfl⟩
  | peekDeadline => exact ⟨_, rfl, rfl⟩
  | popEarliest => exact ⟨_, rfl, rfl⟩

/-- Ids are only ever added. -/
theorem armedIds_step (w : TimerRun) (op : TimerOp) :
    (armedIds w.log).length ≤ (armedIds (w.step op).log).length := by
  obtain ⟨e, he, -⟩ := w.log_step op
  rw [he]
  exact armedIds_cons e w.log

/-- The run lemma. -/
theorem after_tracks (ops : List TimerOp)
    (hcount : (armedIds (after ops).log).length < 2 ^ 32) :
    (after ops).Tracks ∧
      ∀ post e pre, (after ops).log = post ++ e :: pre → e.Lawful pre := by
  induction ops using List.reverseRecOn with
  | nil =>
    refine ⟨start_tracks, fun post e pre heq => ?_⟩
    simp [after, start] at heq
  | append_singleton ops op ih =>
    rw [after_concat] at hcount ⊢
    obtain ⟨htracks, hlawful⟩ := ih (Nat.lt_of_le_of_lt (armedIds_step _ op) hcount)
    obtain ⟨hstep, e, he, hfair⟩ := step_tracks htracks op hcount
    refine ⟨hstep, fun post e' pre heq => ?_⟩
    rw [he] at heq
    cases post with
    | nil =>
      simp only [List.nil_append, List.cons.injEq] at heq
      obtain ⟨rfl, rfl⟩ := heq
      exact hfair
    | cons e'' post =>
      simp only [List.cons_append, List.cons.injEq] at heq
      exact hlawful post e' pre heq.2

/-- Looking at the deadline changes no other answer. -/
theorem after_unpeeked (ops : List TimerOp)
    (hcount : (armedIds (after ops).log).length < 2 ^ 32) :
    (after (ops.filter fun op => !op.isPeek)).log =
      (after ops).log.filter fun e => !e.isPeek := by
  induction ops using List.reverseRecOn with
  | nil => rfl
  | append_singleton ops op ih =>
    rw [after_concat] at hcount
    have hbefore := Nat.lt_of_le_of_lt (armedIds_step _ op) hcount
    have hlog := ih hbefore
    obtain ⟨e, he, hpeek⟩ := (after ops).log_step op
    obtain ⟨hlive, hids⟩ := live_filter (after ops).log
    rw [after_concat, he, List.filter_append]
    cases hop : op.isPeek with
    | true =>
      rw [hop] at hpeek
      rw [List.filter_cons_of_neg (by simp [hop]), List.filter_cons_of_neg (by simp [hpeek]),
        List.filter_nil, List.append_nil, hlog]
    | false =>
      rw [hop] at hpeek
      have htracks := (after_tracks ops hbefore).1
      have hbefore' : (armedIds (after (ops.filter fun op => !op.isPeek)).log).length < 2 ^ 32 := by
        rw [hlog, hids]
        exact hbefore
      have htracks' := (after_tracks _ hbefore').1
      obtain ⟨e', he', he''⟩ := same_event htracks htracks' (by rw [hlog, hlive])
        (by rw [hlog, hids]) op
      rw [he] at he'
      simp only [List.cons.injEq, and_true] at he'
      rw [List.filter_cons_of_pos (by simp [hop]), List.filter_cons_of_pos (by simp [hpeek]),
        List.filter_nil, after_concat, he'', hlog, he']

end TimerRun

/-- In every run of fewer than 2^32 registrations: `pop_earliest` returns the armed timer that
is due first, the one created first among those due together, and `peek_deadline` says its
deadline; a timer that was returned or cleared is not returned again; one that was neither is
in the id map and in the heap; asking for the deadline changes no answer to come; and clearing
one timer leaves the others where they are. -/
theorem timer_history (ops : List TimerOp)
    (hcount : (armedIds (TimerRun.after ops).log).length < 2 ^ 32) :
    (∀ post e pre, (TimerRun.after ops).log = post ++ e :: pre → e.Lawful pre) ∧
    (∀ post e pre id, (TimerRun.after ops).log = post ++ e :: pre → e.Ends id →
      id ∈ armedIds pre → ∀ timer, .fired (some timer) ∈ post → timer.1 ≠ id) ∧
    (∀ id d, (id, d) ∈ liveTimers (TimerRun.after ops).log →
      (TimerRun.after ops).table.entries.lookup id = some d ∧
        ∃ seq, TimerKey.mk d seq id ∈ (TimerRun.after ops).table.order) ∧
    ((TimerRun.after ops).table.peekDeadline =
        (TimerRun.after ops).table.fire.1.map TimerKey.deadline ∧
      (TimerRun.after (ops.filter fun op => !op.isPeek)).log =
        (TimerRun.after ops).log.filter fun e => !e.isPeek) ∧
    ∀ argument, ((TimerRun.after ops).step (.clearTimeout argument)).table.order =
        (TimerRun.after ops).table.order ∧
      ∀ id, timerId argument ≠ some id →
        ((TimerRun.after ops).step (.clearTimeout argument)).table.entries.lookup id =
          (TimerRun.after ops).table.entries.lookup id := by
  obtain ⟨htracks, hlawful⟩ := TimerRun.after_tracks ops hcount
  refine ⟨hlawful, ?_, ?_, ⟨?_, TimerRun.after_unpeeked ops hcount⟩, ?_⟩
  · intro post e pre id heq hends harmed timer hfired hid
    obtain ⟨late, early, rfl⟩ := List.append_of_mem hfired
    have hsplit : (TimerRun.after ops).log =
        late ++ .fired (some timer) :: (early ++ e :: pre) := by
      rw [heq, List.append_assoc, List.cons_append]
    have hnodup : (armedIds (early ++ e :: pre)).Nodup := by
      have := htracks.nodup
      rw [hsplit, armedIds_append] at this
      exact (List.nodup_append.mp this).2.1
    have harmed' : id ∈ armedIds (e :: pre) := by
      rw [show e :: pre = [e] ++ pre from rfl, armedIds_append]
      exact List.mem_append_right _ harmed
    have hout := not_live_later hnodup harmed' (hends.not_live pre)
    have hin := (hlawful late _ _ hsplit).1
    exact hout (List.mem_map.mpr ⟨timer, hin, hid⟩)
  · intro id d hmem
    have hlookup := (htracks.kept id d).mpr hmem
    exact ⟨hlookup, (TimerRun.after ops).table.queued id d hlookup⟩
  · rw [TimerTable.fire_fst]
    rfl
  · intro argument
    cases hid : timerId argument with
    | none => simp [TimerRun.step, hid]
    | some id =>
      by_cases hsome : ((TimerRun.after ops).table.entries.lookup id).isSome
      · obtain ⟨t, ht, -, -, hentries, horder⟩ := TimerTable.clearTimeout_some hsome
        have hstep : ((TimerRun.after ops).step (.clearTimeout argument)).table = t := by
          simp [TimerRun.step, hid, ht]
        rw [hstep]
        refine ⟨horder, fun id' hne => ?_⟩
        rw [hentries]
        exact AList.lookup_erase_ne fun heq => hne (by rw [heq])
      · simp [TimerRun.step, hid, TimerTable.clearTimeout, hsome]

/-- Two timers, the earlier one looked at and returned. -/
theorem timer_history_pair :
    let ops := [.setTimeout 5, .setTimeout 3, .peekDeadline, .popEarliest]
    (armedIds (TimerRun.after ops).log).length < 2 ^ 32 ∧
      ∀ post e pre, (TimerRun.after ops).log = post ++ e :: pre → e.Lawful pre := by
  intro ops
  have hcount : (armedIds (TimerRun.after ops).log).length < 2 ^ 32 := by decide +kernel
  exact ⟨hcount, (timer_history ops hcount).1⟩

end Iso4
