/-
No bridge call is lost.

While a run takes turns and its connection stands, a call of it that is pending is on its way
to the host, or with the host, or its answer is on its way back.  A call whose response never
comes is one the host holds: its handler has not settled, or the host dropped it because a
signal of the run had fired.

* `BridgeWorld.Registered` — a pending call is in the table of its run;
* `BridgeWorld.Underway`, `BridgeWorld.NoneLost` — where a pending call is;
* `bridge_calls_served` — what holds of every call in every state;
* `bridge_call_settled_once` — a settled call stays as it is.
-/
import Iso4.BridgeLimits

namespace Iso4

open BridgeCalls Wire Ipc Execution

namespace BridgeWorld

variable {w : BridgeWorld}

/-! ### The table of a run -/

/-- A run that has not failed has its pending calls in its table. -/
def Registered (w : BridgeWorld) : Prop :=
  ∀ (n run : Nat) (frame : CallFrame) (g : Guest), w.calls[n]? = some ⟨run, frame, .pending⟩ →
    w.guests[run]? = some g → g.failed = false → g.resolvers.lookup frame.callId = some n

/-- What a run has for its table. -/
def table (g : Guest) : (AList fun _ : UInt32 => Nat) × Bool := (g.resolvers, g.failed)

structure SameTable (w w' : BridgeWorld) : Prop where
  calls : w'.calls = w.calls
  guests : w'.guests.map table = w.guests.map table

theorem SameTable.refl (w : BridgeWorld) : w.SameTable w := ⟨rfl, rfl⟩

theorem SameTable.setGuest {w' : BridgeWorld} (h : w.SameTable w') (run : Nat) {f : Guest → Guest}
    (hf : ∀ g, table (f g) = table g) : w.SameTable (w'.setGuest run f) :=
  ⟨h.calls, (map_modify_same hf _ _).trans h.guests⟩

theorem Leaves.sameTable {w' : BridgeWorld} (h : w.Leaves w') : w.SameTable w' := by
  refine ⟨h.calls, ?_⟩
  have hmap := congrArg (List.map fun o => (o.2.2.2.2.2, o.2.2.2.2.1)) h.guests
  rw [List.map_map, List.map_map] at hmap
  exact hmap

theorem Registered.same (h : w.Registered) {w' : BridgeWorld} (hsame : w.SameTable w') : w'.Registered := by
  intro n run frame g hget hg hfailed
  have hmap : (w.guests.map table)[run]? = some (table g) := by
    rw [← hsame.guests, List.getElem?_map, hg]
    rfl
  rw [List.getElem?_map] at hmap
  obtain ⟨g', hg', htable⟩ := Option.map_eq_some_iff.mp hmap
  obtain ⟨hresolvers, hfailed'⟩ := Prod.mk.inj htable
  rw [hsame.calls] at hget
  rw [← hresolvers]
  exact h n run frame g' hget hg' (hfailed'.trans hfailed)

theorem enter_sameTable (w : BridgeWorld) (run : Nat) (g : Guest) (bound functionArg : Bool)
    (target : Option BridgeTarget) : w.SameTable (w.enter run g bound functionArg target) := by
  have htouched : ∀ {f : Guest → Guest}, (∀ g, table (f g) = table g) → w.SameTable (w.setGuest run f) :=
    fun hf => (SameTable.refl w).setGuest run hf
  unfold enter
  split
  · exact .refl w
  · split
    · exact htouched fun _ => rfl
    · split
      · exact htouched fun _ => rfl
      · split
        · exact htouched fun _ => rfl
        · exact htouched fun _ => rfl

/-- The run fails. -/
theorem Registered.fail (h : w.Registered) (run : Nat) :
    Registered (w.setGuest run fun g => { g with failed := true }) := by
  intro n i frame g hget hg hfailed
  by_cases heq : run = i
  · subst heq
    rw [setGuest, List.getElem?_modify_eq] at hg
    obtain ⟨g', -, rfl⟩ := Option.map_eq_some_iff.mp hg
    cases hfailed
  · rw [setGuest, List.getElem?_modify_ne _ _ heq] at hg
    exact h n i frame g hget hg hfailed

/-- A call that is not sent is not pending. -/
theorem Registered.unsent (h : w.Registered) (run : Nat) (frame : CallFrame) {f : Guest → Guest}
    (hf : ∀ g, table (f g) = table g) : Registered ((w.logCall run frame .unsent).setGuest run f) := by
  have hlogged : Registered (w.logCall run frame .unsent) := by
    intro n i fr g hget hg hfailed
    obtain hold | ⟨-, heq⟩ := logCall_cases hget
    · exact h n i fr g hold hg hfailed
    · cases heq
  exact hlogged.same ((SameTable.refl _).setGuest run hf)

/-- A call that is sent is added to the table; its id is new. -/
theorem Registered.sent (h : w.Registered) (hs : w.Sound) (hlen : w.calls.length < 2 ^ 32) {run : Nat}
    (target : BridgeTarget) (args : Blob) (entered : List BridgeTarget) {w' : BridgeWorld}
    (hcalls : w'.calls = w.calls ++ [⟨run, w.nextFrame target args, .pending⟩])
    (hguests : w'.guests = w.guests.modify run fun g =>
      { g with
        entered := entered
        resolvers := g.resolvers.insert (w.nextFrame target args).callId w.calls.length }) : w'.Registered := by
  intro n i frame g hget hg hfailed
  rw [hguests] at hg
  have hcases : w.calls[n]? = some ⟨i, frame, .pending⟩ ∨
      n = w.calls.length ∧ (⟨i, frame, .pending⟩ : Call) = ⟨run, w.nextFrame target args, .pending⟩ := by
    refine logCall_cases (w := w) ?_
    rw [← hget, hcalls]
    rfl
  by_cases heq : run = i
  · subst heq
    rw [List.getElem?_modify_eq] at hg
    obtain ⟨g', hg', rfl⟩ := Option.map_eq_some_iff.mp hg
    dsimp only
    obtain hold | ⟨rfl, hnew⟩ := hcases
    · have hne : frame.callId ≠ (w.nextFrame target args).callId := by
        intro hid
        have hlt := (List.getElem?_eq_some_iff.mp hold).1
        rw [hs.ids n _ hold] at hid
        have := ofNat_inj (by omega) (by omega) hid
        omega
      rw [AList.lookup_insert_ne hne]
      exact h n run frame g' hold hg' hfailed
    · cases hnew
      exact AList.lookup_insert _
  · rw [List.getElem?_modify_ne _ _ heq] at hg
    obtain hold | ⟨-, hnew⟩ := hcases
    · exact h n i frame g hold hg hfailed
    · cases hnew
      exact absurd rfl heq

theorem leave_registered (h : w.Registered) (hs : w.Sound) (run : Nat) (g : Guest)
    (argsBlob : Except RunError Blob) (killed : Bool) (link : Option String)
    (hlen : (w.leave run g argsBlob killed link).calls.length ≤ 2 ^ 32) :
    Registered (w.leave run g argsBlob killed link) := by
  unfold leave at hlen ⊢
  cases hentered : g.entered with
  | nil => exact h
  | cons target rest =>
    rw [hentered] at hlen
    cases argsBlob with
    | error e => exact h.same ((SameTable.refl w).setGuest run fun _ => rfl)
    | ok args =>
      dsimp only at hlen ⊢
      split
      · exact h.unsent run _ fun _ => rfl
      next hsmall =>
        rw [if_neg hsmall] at hlen
        split
        · exact h.unsent run _ fun _ => rfl
        next hlive =>
          rw [if_neg hlive] at hlen
          cases link with
          | some e => exact h.unsent run _ fun _ => rfl
          | none =>
            dsimp only at hlen ⊢
            have hlt : w.calls.length < 2 ^ 32 := by
              have heq : (w.calls ++ [(⟨run, w.nextFrame target args, .pending⟩ : Call)]).length ≤ 2 ^ 32 := hlen
              rw [List.length_append, List.length_singleton] at heq
              omega
            exact h.sent hs hlt target args rest rfl rfl

/-- A call that is settled leaves the table. -/
theorem settle_registered (h : w.Registered) (hs : w.Sound) (hlen : w.calls.length ≤ 2 ^ 32) {run : Nat}
    {g g' : Guest} (hg : w.guests[run]? = some g') (hsame : g'.resolvers = g.resolvers) (r : ResponseFrame)
    (materialises : Bool) : Registered (w.settle run g r materialises) := by
  unfold settle
  cases hlookup : g.resolvers.lookup r.callId with
  | none => exact h
  | some n =>
    obtain ⟨frame, hget, hframe⟩ := (hs.guests run g' hg).resolvers r.callId n (hsame ▸ hlookup)
    -- of the calls of a run, the table loses this one only
    have hothers : ∀ (m i : Nat) (fr : CallFrame) (g₁ : Guest), m ≠ n → w.calls[m]? = some ⟨i, fr, .pending⟩ →
        (w.guests.modify run fun g => { g with resolvers := g.resolvers.erase r.callId })[i]? = some g₁ →
        g₁.failed = false → g₁.resolvers.lookup fr.callId = some m := by
      intro m i fr g₁ hne hm hg₁ hfailed
      by_cases heq : run = i
      · subst heq
        rw [List.getElem?_modify_eq, hg] at hg₁
        cases hg₁
        have hid : fr.callId ≠ r.callId := by
          intro hid
          exact hne (hs.unique hlen hm hget (hid.trans hframe.symm)).1
        exact (AList.lookup_erase_ne hid).trans (h m run fr g' hm hg hfailed)
      · rw [List.getElem?_modify_ne _ _ heq] at hg₁
        exact h m i fr g₁ hm hg₁ hfailed
    have hsettled : Registered ((w.setGuest run fun g =>
        { g with resolvers := g.resolvers.erase r.callId }).settleCall n r.answer) := by
      intro m i fr g₁ hm hg₁ hfailed
      obtain ⟨hold, hne⟩ | ⟨-, old, -, heq⟩ := settleCall_get hm
      · exact hothers m i fr g₁ hne.symm hold hg₁ hfailed
      · cases heq
    dsimp only
    split
    · split
      · exact hsettled
      · -- the run fails with the call in hand
        intro m i fr g₁ hm hg₁ hfailed
        by_cases heq : run = i
        · subst heq
          rw [setGuest, List.getElem?_modify_eq] at hg₁
          obtain ⟨g₂, -, rfl⟩ := Option.map_eq_some_iff.mp hg₁
          cases hfailed
        · rw [setGuest, List.getElem?_modify_ne _ _ heq] at hg₁
          refine hothers m i fr g₁ ?_ hm hg₁ hfailed
          rintro rfl
          change w.calls[m]? = _ at hm
          rw [hget] at hm
          cases hm
          exact heq rfl
    · exact hsettled

theorem takeEvent_registered (h : w.Registered) (hs : w.Sound) (hlen : w.calls.length ≤ 2 ^ 32) {run : Nat}
    {g : Guest} (hg : w.guests[run]? = some g) (materialises : Bool) :
    Registered (w.takeEvent run g materialises) := by
  unfold takeEvent
  cases hevents : g.events with
  | nil => exact h
  | cons e rest =>
    have hrest : Registered (w.setGuest run fun g => { g with events := rest }) :=
      h.same ((SameTable.refl w).setGuest run fun _ => rfl)
    have hsound := hs.takeFirst hg hevents
    dsimp only
    split
    · cases e with
      | lost => exact hrest.fail run
      | response r =>
        have hg' : (w.setGuest run fun g => { g with events := rest }).guests[run]? =
            some { g with events := rest } := by
          rw [setGuest, List.getElem?_modify_eq, hg]
          rfl
        exact settle_registered hrest hsound hlen hg' rfl r materialises
    · exact hrest

theorem begin_registered (h : w.Registered) (hcounted : w.Counted) (encodes : Bool) (guest : Guest) :
    Registered (w.begin encodes guest) := by
  intro n run frame g hget hg hfailed
  -- a run that is new has made no call
  have hlt : run < w.guests.length :=
    hcounted.started run (List.mem_map.mpr ⟨_, List.mem_of_getElem? hget, rfl⟩)
  exact h n run frame g hget ((List.getElem?_append_left hlt).symm.trans hg) hfailed

theorem step_registered (h : w.Registered) (hs : w.Sound) (hcounted : w.Counted) (op : BridgeOp)
    (hlen : (w.step op).calls.length ≤ 2 ^ 32) : Registered (w.step op) := by
  have hbefore := le_trans (step_extends w op).length_le hlen
  refine step_keeps (P := fun w' => w'.calls.length ≤ 2 ^ 32 → w'.Registered) ?_ ?_ ?_ ?_ ?_ op hlen
  · exact fun w' hleaves _ => h.same hleaves.sameTable
  · exact fun encodes guest _ => begin_registered h hcounted encodes guest
  · exact fun run g bound functionArg target _ _ => h.same (enter_sameTable w run g bound functionArg target)
  · exact fun run g argsBlob killed link _ hlen => leave_registered h hs run g argsBlob killed link hlen
  · exact fun run g materialises hg _ => takeEvent_registered h hs hbefore hg materialises

/-! ### Where a pending call is -/

/-- The host has the call and has not answered it. -/
def Keeps (s : HostedCall) (aborted : Bool) : Prop :=
  s.phase = .running ∨ (∃ a, s.phase = .settled a) ∨ s.phase = .dropped ∧ aborted = true

inductive Underway (w : BridgeWorld) (g : Guest) (frame : CallFrame) : Prop where
  | sent (h : some frame ∈ w.toHost)
  | kept (s : HostedCall) (hs : s ∈ w.served) (hframe : s.frame = frame) (h : Keeps s g.aborted)
  | answered (r : ResponseFrame) (hr : some r ∈ w.toRuntime) (hid : r.callId = frame.callId)
  | arrived (r : ResponseFrame) (hr : ChannelEvent.response r ∈ g.events) (hid : r.callId = frame.callId)
  | lost (h : ChannelEvent.lost ∈ g.events)

/-- A pending call of a run that takes turns, on a connection that stands. -/
structure Pending (w : BridgeWorld) (n run : Nat) (frame : CallFrame) (g : Guest) : Prop where
  call : w.calls[n]? = some ⟨run, frame, .pending⟩
  guest : w.guests[run]? = some g
  alive : w.Alive run g
  stands : w.conn.closed = false

def NoneLost (w : BridgeWorld) : Prop := ∀ n run frame g, w.Pending n run frame g → w.Underway g frame

theorem Underway.mono {g g' : Guest} {frame : CallFrame} (h : w.Underway g frame) {w' : BridgeWorld}
    (hhost : w.toHost ⊆ w'.toHost) (hruntime : w.toRuntime ⊆ w'.toRuntime) (hserved : w.served ⊆ w'.served)
    (hevents : g.events ⊆ g'.events) (haborted : g.aborted = true → g'.aborted = true) :
    w'.Underway g' frame := by
  cases h with
  | sent h => exact .sent (hhost h)
  | kept s hs hframe h => exact .kept s (hserved hs) hframe (h.imp_right (Or.imp_right (And.imp_right haborted)))
  | answered r hr hid => exact .answered r (hruntime hr) hid
  | arrived r hr hid => exact .arrived r (hevents hr) hid
  | lost h => exact .lost (hevents h)

theorem Underway.same {g : Guest} {frame : CallFrame} (h : w.Underway g frame) {w' : BridgeWorld}
    (hhost : w.toHost ⊆ w'.toHost) (hruntime : w.toRuntime ⊆ w'.toRuntime) (hserved : w.served ⊆ w'.served) :
    w'.Underway g frame :=
  h.mono hhost hruntime hserved (List.Subset.refl _) fun h => h

/-- A run that takes turns, and whose calls are not new, took turns before. -/
theorem Alive.before {run : Nat} {g g' : Guest} {w' : BridgeWorld} (h : w'.Alive run g')
    (hmoves : w.conn.Moves w'.conn) (hbegun : w.Begun run) (hsame : own g' = own g) : w.Alive run g := by
  obtain ⟨⟨early, hrunning⟩, herror, hfailed⟩ := h
  obtain ⟨-, hsame⟩ := Prod.mk.inj hsame
  obtain ⟨-, hsame⟩ := Prod.mk.inj hsame
  obtain ⟨-, hsame⟩ := Prod.mk.inj hsame
  obtain ⟨herror', hsame⟩ := Prod.mk.inj hsame
  obtain ⟨hfailed', -⟩ := Prod.mk.inj hsame
  refine ⟨?_, herror'.symm.trans herror, hfailed'.symm.trans hfailed⟩
  obtain ⟨stage, hstage, hne⟩ := hbegun
  obtain hrequested | ⟨early', rfl⟩ := hmoves.running run stage early hstage hrunning
  · exact absurd hrequested hne
  · exact ⟨early', hstage⟩

/-- The call was pending before a step that is not the guest's. -/
theorem Pending.before {n run : Nat} {frame : CallFrame} {g' : Guest} {w' : BridgeWorld}
    (h : w'.Pending n run frame g') (hs : w.Sound) (hleaves : w.Leaves w') (hmoves : w.conn.Moves w'.conn) :
    ∃ g, w.Pending n run frame g ∧ own g' = own g := by
  have hcall : w.calls[n]? = some ⟨run, frame, .pending⟩ := hleaves.calls ▸ h.call
  have hmap : (w.guests.map own)[run]? = some (own g') := by
    rw [← hleaves.guests, List.getElem?_map, h.guest]
    rfl
  rw [List.getElem?_map] at hmap
  obtain ⟨g, hg, hown⟩ := Option.map_eq_some_iff.mp hmap
  have hbegun : w.Begun run := hs.begun run frame ⟨n, .pending, hcall⟩
  have hstands : w.conn.closed = false := by
    cases hclosed : w.conn.closed with
    | false => rfl
    | true => exact (hmoves.closed hclosed).symm.trans h.stands
  exact ⟨g, ⟨hcall, hg, h.alive.before hmoves hbegun hown.symm, hstands⟩, hown.symm⟩

/-! ### The host -/

/-- The host goes on with one call; the others are where they were. -/
theorem Underway.setPhase {g : Guest} {frame : CallFrame} (h : w.Underway g frame) {i : Nat} {s : HostedCall}
    (hs : w.served[i]? = some s) (phase : HandlerPhase) {w' : BridgeWorld}
    (hserved : (w.setPhase i phase).served ⊆ w'.served) (hhost : w.toHost ⊆ w'.toHost)
    (hruntime : w.toRuntime ⊆ w'.toRuntime) (hself : s.frame = frame → w'.Underway g frame) :
    w'.Underway g frame := by
  cases h with
  | sent h => exact .sent (hhost h)
  | kept t ht hframe h =>
    rcases setPhase_mem hs phase ht with ht' | rfl
    · exact .kept t (hserved ht') hframe h
    · exact hself hframe
  | answered r hr hid => exact .answered r (hruntime hr) hid
  | arrived r hr hid => exact .arrived r hr hid
  | lost h => exact .lost h

/-- A response of a call is on its way, unless the connection is torn down. -/
theorem respond_underway {run : Nat} {frame : CallFrame} (hbegun : w.Begun run) (a : CallAnswer) (g : Guest)
    (hopen : (w.respond run frame.callId a).conn.closed = false) :
    (w.respond run frame.callId a).Underway g frame := by
  obtain ⟨hw, hnot⟩ | ⟨id, -, -, hw⟩ := w.respond_cases run frame.callId a
  · rw [hw] at hopen
    obtain hclosed | hnone := hnot
    · exact absurd (hclosed.symm.trans hopen) Bool.noConfusion
    · obtain ⟨stage, hstage, -⟩ := hbegun
      obtain ⟨r, hget, -⟩ := Option.map_eq_some_iff.mp hstage
      rw [RunWorld.idOf_of_get hget] at hnone
      cases hnone
  · rw [hw]
    exact .answered ⟨frame.callId, a⟩ (List.mem_append_right _ (List.mem_singleton.mpr rfl)) rfl

theorem respond_keeps (w : BridgeWorld) (run : Nat) (callId : UInt32) (a : CallAnswer) :
    (w.respond run callId a).toHost = w.toHost ∧ (w.respond run callId a).served = w.served ∧
      (w.respond run callId a).guests = w.guests ∧ w.toRuntime ⊆ (w.respond run callId a).toRuntime := by
  obtain ⟨hw, -⟩ | ⟨id, -, -, hw⟩ := w.respond_cases run callId a
  · rw [hw]
    exact ⟨rfl, rfl, rfl, List.Subset.refl _⟩
  · rw [hw]
    exact ⟨rfl, rfl, rfl, List.subset_append_left _ _⟩

theorem respond_moves (hfresh : w.conn.Fresh) (run : Nat) (callId : UInt32) (a : CallAnswer) :
    w.conn.Moves (w.respond run callId a).conn :=
  RunWorld.step_moves hfresh (.hostWrites run)

theorem dispatch_moves (hfresh : w.conn.Fresh) (run : Nat) (g : Guest) (frame : CallFrame)
    (decoding : Option String) : w.conn.Moves (w.dispatch run g frame decoding).conn := by
  unfold dispatch
  split
  · exact .refl w.conn
  · split
    · exact respond_moves (w := w.serve run frame _) hfresh run frame.callId _
    · split
      · exact .refl w.conn
      · exact respond_moves (w := w.serve run frame _) hfresh run frame.callId _

/-- What the host already has stays with it when it takes up another call. -/
theorem dispatch_keeps (w : BridgeWorld) (run : Nat) (g : Guest) (frame : CallFrame) (decoding : Option String) :
    (w.dispatch run g frame decoding).toHost = w.toHost ∧
      w.served ⊆ (w.dispatch run g frame decoding).served ∧
      w.toRuntime ⊆ (w.dispatch run g frame decoding).toRuntime := by
  have hrefused : ∀ error, (w.refuse run frame error).toHost = w.toHost ∧
      w.served ⊆ (w.refuse run frame error).served ∧ w.toRuntime ⊆ (w.refuse run frame error).toRuntime := by
    intro error
    obtain ⟨hhost, hserved, -, hruntime⟩ :=
      respond_keeps (w.serve run frame (.refused error)) run frame.callId (.error error)
    exact ⟨hhost, hserved ▸ List.subset_append_left _ _, hruntime⟩
  unfold dispatch
  split
  · exact ⟨rfl, List.subset_append_left _ _, List.Subset.refl _⟩
  · split
    · exact hrefused _
    · split
      · exact ⟨rfl, List.subset_append_left _ _, List.Subset.refl _⟩
      · exact hrefused _

/-- The host drops a call only when a signal of the run has fired. -/
theorem dispatch_guest {run i : Nat} {g g' : Guest} {frame : CallFrame} {decoding : Option String}
    (h : (w.dispatch run g frame decoding).guests[i]? = some g') :
    ∃ g₀, w.guests[i]? = some g₀ ∧ g'.events = g₀.events ∧ g'.aborted = g₀.aborted := by
  have hsame : ∀ {o : Option Guest}, o = some g' → ∃ g₀, o = some g₀ ∧ g'.events = g₀.events ∧
      g'.aborted = g₀.aborted := fun ho => ⟨g', ho, rfl, rfl⟩
  have hrefused : ∀ error, (w.refuse run frame error).guests = w.guests := fun error =>
    (respond_keeps (w.serve run frame (.refused error)) run frame.callId (.error error)).2.2.1
  unfold dispatch at h
  split at h
  · by_cases heq : run = i
    · subst heq
      rw [setGuest, List.getElem?_modify_eq] at h
      obtain ⟨g₀, hg₀, rfl⟩ := Option.map_eq_some_iff.mp h
      exact ⟨g₀, hg₀, rfl, rfl⟩
    · rw [setGuest, List.getElem?_modify_ne _ _ heq] at h
      exact hsame h
  · split at h
    · rw [hrefused] at h
      exact hsame h
    · split at h
      · exact hsame h
      · rw [hrefused] at h
        exact hsame h

theorem dispatch_underway {run : Nat} {g g' : Guest} {frame : CallFrame} {decoding : Option String}
    (hbegun : w.Begun run) (hg : w.guests[run]? = some g)
    (hg' : (w.dispatch run g frame decoding).guests[run]? = some g')
    (hopen : (w.dispatch run g frame decoding).conn.closed = false) :
    (w.dispatch run g frame decoding).Underway g' frame := by
  obtain ⟨g₀, hg₀, -, haborted⟩ := dispatch_guest hg'
  rw [hg] at hg₀
  cases hg₀
  have hnew : ∀ phase, HostedCall.mk run frame phase ∈ (w.serve run frame phase).served := fun phase =>
    List.mem_append_right _ (List.mem_singleton.mpr rfl)
  have hrefused : ∀ error, (w.refuse run frame error).conn.closed = false →
      (w.refuse run frame error).Underway g' frame := fun error hopen =>
    respond_underway (w := w.serve run frame (.refused error)) hbegun (.error error) g' hopen
  unfold dispatch at hopen ⊢
  split
  next hdropped =>
    exact .kept ⟨run, frame, .dropped⟩ (hnew .dropped) rfl (Or.inr (Or.inr ⟨rfl, haborted.trans hdropped⟩))
  next hlive =>
    rw [if_neg hlive] at hopen
    cases decoding with
    | some message => exact hrefused _ hopen
    | none =>
      dsimp only at hopen ⊢
      split
      · exact .kept ⟨run, frame, .running⟩ (hnew .running) rfl (Or.inl rfl)
      next hnone =>
        rw [if_neg hnone] at hopen
        exact hrefused _ hopen

/-- A call on its way to the host is the one the router takes, or is on its way still. -/
theorem Underway.pop {g : Guest} {frame : CallFrame} (h : w.Underway g frame) {content : Option CallFrame}
    {contents : List (Option CallFrame)} (hcontents : w.toHost = content :: contents) (conn : RunWorld) :
    content = some frame ∨ Underway { w with conn, toHost := contents } g frame := by
  cases h with
  | sent hsent =>
    rw [hcontents] at hsent
    exact (List.mem_cons.mp hsent).imp Eq.symm .sent
  | kept s hmem hframe hkeeps => exact Or.inr (.kept s hmem hframe hkeeps)
  | answered r hr hid => exact Or.inr (.answered r hr hid)
  | arrived r hr hid => exact Or.inr (.arrived r hr hid)
  | lost hlost => exact Or.inr (.lost hlost)

theorem Sound.owner (h : w.Sound) (hlen : w.calls.length ≤ 2 ^ 32) {n i run : Nat} {frame : CallFrame}
    {state : CallState} (hget : w.calls[n]? = some ⟨i, frame, state⟩) (hmade : w.Made run frame) : run = i := by
  obtain ⟨m, state', hm⟩ := hmade
  obtain ⟨-, heq⟩ := h.unique hlen hm hget rfl
  cases heq
  rfl

/-- The router gives a call to its handler, or answers it. -/
theorem route_noneLost (h : w.NoneLost) (hs : w.Sound) (hlen : w.calls.length ≤ 2 ^ 32) (decoding : Option String) :
    NoneLost (w.route decoding) := by
  intro n i frame' g' hp
  have hrouting := route_routing hs decoding
  have hleaves := route_leaves w decoding
  generalize w.route decoding = w' at hrouting hleaves hp ⊢
  cases hrouting with
  | idle => exact h n i frame' g' hp
  | other f rest contents hqueue hcontents hopen =>
    obtain ⟨g, hpend, -⟩ := hp.before hs hleaves (RunWorld.step_moves hs.fresh .route)
    have hg : some g = some g' := hpend.guest.symm.trans hp.guest
    cases hg
    exact ((h n i frame' g' hpend).pop hcontents _).resolve_left (Option.some_ne_none frame').symm
  | strange run frame f rest contents hqueue hcontents hopen hmade hguest =>
    obtain ⟨g, hpend, -⟩ := hp.before hs hleaves (RunWorld.step_moves hs.fresh .route)
    have hg : some g = some g' := hpend.guest.symm.trans hp.guest
    cases hg
    obtain heq | hstill := (h n i frame' g' hpend).pop hcontents (w.conn.step .route)
    · cases heq
      obtain rfl := hs.owner hlen hpend.call hmade
      have hguest' := hpend.guest
      rw [hguest] at hguest'
      cases hguest'
    · exact hstill
  | call run frame f rest contents hqueue hcontents hopen hmade g₀ hguest =>
    have hpop := hs.pop hopen hqueue hcontents
    have hroute := RunWorld.step_moves hs.fresh .route
    have hmoves := hroute.trans (dispatch_moves hpop.fresh run g₀ frame decoding)
    obtain ⟨g, hpend, -⟩ := hp.before hs hleaves hmoves
    obtain heq | hstill := (h n i frame' g hpend).pop hcontents (w.conn.step .route)
    · cases heq
      obtain rfl := hs.owner hlen hpend.call hmade
      have hbegun : Begun { w with conn := w.conn.step .route, toHost := contents } run :=
        (hs.begun run _ hmade).moves hroute
      exact dispatch_underway hbegun hguest hp.guest hp.stands
    · obtain ⟨hhost, hserved, hruntime⟩ := dispatch_keeps
        { w with conn := w.conn.step .route, toHost := contents } run g₀ frame decoding
      obtain ⟨g₁, hg₁, hevents, haborted⟩ := dispatch_guest hp.guest
      have hg : some g = some g₁ := hpend.guest.symm.trans hg₁
      cases hg
      exact hstill.mono (hhost ▸ List.Subset.refl _) hruntime hserved (hevents ▸ List.Subset.refl _)
        fun hab => haborted.trans hab

/-- The handler of a call settles. -/
theorem settlePhase_noneLost (h : w.NoneLost) {i : Nat} {s : HostedCall} (hs : w.served[i]? = some s)
    (a : CallAnswer) :
    NoneLost (w.setPhase i (.settled a)) := by
  intro n run frame g hp
  have hpend : w.Pending n run frame g := ⟨hp.call, hp.guest, hp.alive, hp.stands⟩
  refine (h n run frame g hpend).setPhase hs (.settled a) (List.Subset.refl _) (List.Subset.refl _)
    (List.Subset.refl _) fun hframe => ?_
  exact .kept ⟨s.run, s.frame, .settled a⟩ (setPhase_self hs _) hframe (Or.inr (Or.inl ⟨a, rfl⟩))

/-- What the handler wrote is on its way. -/
theorem write_noneLost (h : w.NoneLost) (hsound : w.Sound) {i : Nat} {s : HostedCall} (hs : w.served[i]? = some s)
    (written : List CallAnswer) (a : CallAnswer) :
    NoneLost ((w.setPhase i (.answered written)).respond s.run s.frame.callId a) := by
  intro n run frame g hp
  obtain ⟨hhost, hserved, hguests, hruntime⟩ :=
    respond_keeps (w.setPhase i (.answered written)) s.run s.frame.callId a
  have hmoves := respond_moves (w := w.setPhase i (.answered written)) hsound.fresh s.run s.frame.callId a
  obtain ⟨g', hpend, -⟩ := hp.before hsound ⟨rfl, congrArg (List.map own) hguests⟩ hmoves
  have hg : some g' = some g := hpend.guest.symm.trans (hguests ▸ hp.guest)
  cases hg
  refine (h n run frame g hpend).setPhase hs (.answered written) (hserved ▸ List.Subset.refl _)
    (hhost ▸ List.Subset.refl _) hruntime ?_
  rintro rfl
  have hmade := hsound.served s (List.mem_of_getElem? hs)
  exact respond_underway (w := w.setPhase i (.answered written)) (hsound.begun _ _ hmade) a g hp.stands

theorem answer_noneLost (h : w.NoneLost) (hsound : w.Sound) (hlen : w.calls.length ≤ 2 ^ 32) {i : Nat}
    {s : HostedCall} (hs : w.served[i]? = some s) (a : CallAnswer) (failure : BridgeErrorPayload) :
    NoneLost (w.answer i s a failure) := by
  unfold answer
  dsimp only
  split
  · exact write_noneLost h hsound hs [a] a
  · split
    · exact write_noneLost h hsound hs [.error failure] (.error failure)
    · split
      · -- the connection is torn down
        intro n run frame g hp
        have hclosed := hp.stands
        cases hclosed
      next hgone =>
        -- the host has forgotten the run of the call, so the run takes no turns
        intro n run frame g hp
        have hpend : w.Pending n run frame g := ⟨hp.call, hp.guest, hp.alive, hp.stands⟩
        refine (h n run frame g hpend).setPhase hs (.answered []) (List.Subset.refl _) (List.Subset.refl _)
          (List.Subset.refl _) ?_
        rintro rfl
        obtain rfl := hsound.owner hlen hpend.call (hsound.served s (List.mem_of_getElem? hs))
        obtain ⟨early, hstage⟩ := hpend.alive.1
        obtain ⟨r, hget, -⟩ := Option.map_eq_some_iff.mp hstage
        have hid := RunWorld.idOf_of_get hget
        obtain ⟨e, hlookup, -⟩ := hsound.fresh.unanswered s.run r.runId _ hid hstage RunStage.noConfusion
        rw [hid, Option.getD_some, hlookup] at hgone
        exact absurd rfl hgone

/-! ### The runtime -/

/-- A response on its way is the one the demux takes, or is on its way still. -/
theorem Underway.received {g : Guest} {frame : CallFrame} (h : w.Underway g frame)
    {content : Option ResponseFrame} {contents : List (Option ResponseFrame)}
    (hcontents : w.toRuntime = content :: contents) (taken : Bool) :
    (∃ r, content = some r ∧ r.callId = frame.callId) ∨ (w.received taken contents).Underway g frame := by
  cases h with
  | sent hsent => exact Or.inr (.sent (List.mem_append_left _ hsent))
  | kept s hmem hframe hkeeps => exact Or.inr (.kept s hmem hframe hkeeps)
  | answered r hr hid =>
    rw [hcontents] at hr
    exact (List.mem_cons.mp hr).imp (fun heq => ⟨r, heq.symm, hid⟩) fun hmem => .answered r hmem hid
  | arrived r hr hid => exact Or.inr (.arrived r hr hid)
  | lost hlost => exact Or.inr (.lost hlost)

/-- The call that the host answered for a response is the pending one with its id. -/
theorem Sound.answeredCall (h : w.Sound) (hlen : w.calls.length ≤ 2 ^ 32) {n i : Nat} {frame : CallFrame}
    {state : CallState} (hget : w.calls[n]? = some ⟨i, frame, state⟩) {s : HostedCall} (hs : s ∈ w.served)
    (hid : s.frame.callId = frame.callId) : s.run = i := by
  obtain ⟨m, state', hm⟩ := h.served s hs
  obtain ⟨-, heq⟩ := h.unique hlen hm hget hid
  cases heq
  rfl

/-- A response finds the run of its call, whose route stands while it takes turns. -/
theorem receive_noneLost (h : w.NoneLost) (hs : w.Sound) (hlen : w.calls.length ≤ 2 ^ 32) (taken : Bool) :
    NoneLost (w.receive taken) := by
  intro n i frame g' hp
  have hreceiving := receive_receiving hs taken
  have hleaves := receive_leaves w taken
  have hmoves := RunWorld.step_moves hs.fresh (.receive taken)
  -- the route of a call that is pending
  have hrouted : ∀ {g : Guest} {s : HostedCall} {id : Nat} {r : ResponseFrame},
      w.Pending n i frame g → s ∈ w.served →
      r.callId = s.frame.callId → r.callId = frame.callId → w.conn.idOf s.run = some id →
      w.conn.routes.lookup id = some i := by
    intro g s id r hpend hmem hcall hframe hid
    rw [hs.answeredCall hlen hpend.call hmem (hcall.symm.trans hframe)] at hid
    obtain ⟨early, hstage⟩ := hpend.alive.1
    obtain ⟨id', hid', hroute⟩ := hs.routed i early hstage
    rw [hid] at hid'
    cases hid'
    exact hroute
  generalize w.receive taken = w' at hreceiving hleaves hp ⊢
  cases hreceiving with
  | idle => exact h n i frame g' hp
  | other f rest contents hqueue hcontents =>
    obtain ⟨g, hpend, -⟩ := hp.before hs hleaves hmoves
    have hg : some g = some g' := hpend.guest.symm.trans hp.guest
    cases hg
    refine ((h n i frame g' hpend).received hcontents taken).resolve_left ?_
    rintro ⟨r, hr, -⟩
    cases hr
  | astray r s id f rest contents hqueue hcontents hmem hcall ha hid hroute =>
    obtain ⟨g, hpend, -⟩ := hp.before hs hleaves hmoves
    have hg : some g = some g' := hpend.guest.symm.trans hp.guest
    cases hg
    refine ((h n i frame g' hpend).received hcontents taken).resolve_left ?_
    rintro ⟨r', hr', hframe⟩
    cases hr'
    rw [hrouted hpend hmem hcall hframe hid] at hroute
    cases hroute
  | response r s id owner f rest contents hqueue hcontents hmem hcall ha hid hroute =>
    obtain ⟨g, hpend, -⟩ := hp.before hs hleaves hmoves
    have hguest := hp.guest
    by_cases heq : owner = i
    · subst heq
      rw [setGuest, List.getElem?_modify_eq] at hguest
      obtain ⟨g₀, hg₀, rfl⟩ := Option.map_eq_some_iff.mp hguest
      have hg : some g = some g₀ := hpend.guest.symm.trans hg₀
      cases hg
      obtain ⟨r', hr', hframe⟩ | hstill := (h n owner frame g hpend).received hcontents taken
      · cases hr'
        by_cases hcap : g.frameCap < r.length id + 1
        · exact .lost (List.mem_append_right _ (by rw [if_pos hcap]; exact List.mem_singleton.mpr rfl))
        · exact .arrived r (List.mem_append_right _ (by rw [if_neg hcap]; exact List.mem_singleton.mpr rfl)) hframe
      · exact hstill.mono (List.Subset.refl _) (List.Subset.refl _) (List.Subset.refl _)
          (List.subset_append_left _ _) fun hab => hab
    · rw [setGuest, List.getElem?_modify_ne _ _ heq] at hguest
      have hg : some g = some g' := hpend.guest.symm.trans hguest
      cases hg
      refine (((h n i frame g' hpend).received hcontents taken).resolve_left ?_).same (List.Subset.refl _)
        (List.Subset.refl _) (List.Subset.refl _)
      rintro ⟨r', hr', hframe⟩
      cases hr'
      rw [hrouted hpend hmem hcall hframe hid] at hroute
      exact heq (Option.some.inj hroute).symm

/-- Of the calls of a run, the first event is about one at most. -/
theorem Underway.takeFirst {g g' : Guest} {frame : CallFrame} (h : w.Underway g frame) {e : ChannelEvent}
    {rest : List ChannelEvent} (hevents : g.events = e :: rest) (hrest : g'.events = rest)
    (haborted : g'.aborted = g.aborted) {w' : BridgeWorld} (hhost : w'.toHost = w.toHost)
    (hruntime : w'.toRuntime = w.toRuntime) (hserved : w'.served = w.served) :
    (e = .lost ∨ ∃ r, e = .response r ∧ r.callId = frame.callId) ∨ w'.Underway g' frame := by
  cases h with
  | sent hsent => exact Or.inr (.sent (hhost ▸ hsent))
  | kept s hmem hframe hkeeps => exact Or.inr (.kept s (hserved ▸ hmem) hframe (haborted ▸ hkeeps))
  | answered r hr hid => exact Or.inr (.answered r (hruntime ▸ hr) hid)
  | arrived r hr hid =>
    rw [hevents] at hr
    exact (List.mem_cons.mp hr).imp (fun heq => Or.inr ⟨r, heq.symm, hid⟩) fun hmem => .arrived r (hrest ▸ hmem) hid
  | lost hlost =>
    rw [hevents] at hlost
    exact (List.mem_cons.mp hlost).imp (fun heq => Or.inl heq.symm) fun hmem => .lost (hrest ▸ hmem)

/-- One run makes a step of its own; the calls of the others are where they were. -/
theorem NoneLost.guestStep (h : w.NoneLost) {w' : BridgeWorld} {run : Nat} {f : Guest → Guest}
    (hconn : w'.conn = w.conn) (hguests : w'.guests = w.guests.modify run f) (hhost : w'.toHost = w.toHost)
    (hruntime : w'.toRuntime = w.toRuntime) (hserved : w'.served = w.served)
    (hcalls : ∀ (n i : Nat) (frame : CallFrame), w'.calls[n]? = some ⟨i, frame, .pending⟩ →
      w.calls[n]? = some ⟨i, frame, .pending⟩)
    (hself : ∀ n frame g, w'.Pending n run frame (f g) → w.guests[run]? = some g →
      w.calls[n]? = some ⟨run, frame, .pending⟩ → w'.Underway (f g) frame) : w'.NoneLost := by
  intro n i frame g' hp
  have hguest := hp.guest
  rw [hguests] at hguest
  by_cases heq : run = i
  · subst heq
    rw [List.getElem?_modify_eq] at hguest
    obtain ⟨g, hg, rfl⟩ := Option.map_eq_some_iff.mp hguest
    exact hself n frame g hp hg (hcalls n run frame hp.call)
  · rw [List.getElem?_modify_ne _ _ heq] at hguest
    obtain ⟨⟨early, hrunning⟩, herror, hfailed⟩ := hp.alive
    rw [hconn] at hrunning
    have hpend : w.Pending n i frame g' :=
      ⟨hcalls n i frame hp.call, hguest, ⟨⟨early, hrunning⟩, herror, hfailed⟩, hconn ▸ hp.stands⟩
    exact (h n i frame g' hpend).same (hhost ▸ List.Subset.refl _) (hruntime ▸ List.Subset.refl _)
      (hserved ▸ List.Subset.refl _)

theorem settle_noneLost (h : w.NoneLost) (hreg : w.Registered) {run : Nat} {g : Guest}
    (hg : w.guests[run]? = some g) {r : ResponseFrame} {rest : List ChannelEvent}
    (hevents : g.events = .response r :: rest) (halive : w.Alive run g) (materialises : Bool) :
    NoneLost ((w.setGuest run fun g => { g with events := rest }).settle run g r materialises) := by
  -- a call of the run with the id of the response is in the run's table
  have hnext : ∀ {w' : BridgeWorld} {g' : Guest} {n : Nat} {frame : CallFrame}, w'.conn = w.conn →
      w'.toHost = w.toHost → w'.toRuntime = w.toRuntime → w'.served = w.served → g'.events = rest →
      g'.aborted = g.aborted → w.calls[n]? = some ⟨run, frame, .pending⟩ → w'.conn.closed = false →
      g.resolvers.lookup r.callId = some n ∨ w'.Underway g' frame := by
    intro w' g' n frame hconn hhost hruntime hserved hrest haborted hcall hstands
    have hpend : w.Pending n run frame g := ⟨hcall, hg, halive, hconn ▸ hstands⟩
    refine ((h n run frame g hpend).takeFirst hevents hrest haborted hhost hruntime hserved).imp_left ?_
    rintro (heq | ⟨r', heq, hid⟩)
    · cases heq
    · cases heq
      rw [hid]
      exact hreg n run frame g hcall hg halive.2.2
  unfold settle
  cases hlookup : g.resolvers.lookup r.callId with
  | none =>
    refine h.guestStep rfl rfl rfl rfl rfl (fun _ _ _ hcall => hcall) fun n frame g' hp hg' hcall => ?_
    rw [hg] at hg'
    cases hg'
    refine Or.resolve_left (hnext rfl rfl rfl rfl rfl rfl hcall hp.stands) fun hfound => ?_
    rw [hlookup] at hfound
    cases hfound
  | some m =>
    have hguests : ((w.guests.modify run fun g => { g with events := rest }).modify run fun g =>
        { g with resolvers := g.resolvers.erase r.callId }) = w.guests.modify run fun g =>
          { g with
            events := rest
            resolvers := g.resolvers.erase r.callId } := List.modify_modify_eq _ _ run w.guests
    have hsettled : NoneLost (((w.setGuest run fun g => { g with events := rest }).setGuest run fun g =>
        { g with resolvers := g.resolvers.erase r.callId }).settleCall m r.answer) := by
      refine h.guestStep rfl hguests rfl rfl rfl (fun n i frame hcall => ?_)
        fun n frame g' hp hg' hcall => ?_
      · obtain ⟨hold, -⟩ | ⟨-, old, -, heq⟩ := settleCall_get hcall
        · exact hold
        · cases heq
      · rw [hg] at hg'
        cases hg'
        refine Or.resolve_left (hnext rfl rfl rfl rfl rfl rfl hcall hp.stands) fun hfound => ?_
        rw [hlookup] at hfound
        cases hfound
        obtain ⟨-, hne⟩ | ⟨-, old, -, heq⟩ := settleCall_get hp.call
        · exact hne rfl
        · cases heq
    dsimp only
    split
    · split
      · exact hsettled
      · -- the run fails with the call in hand
        have hfailed : (((w.guests.modify run fun g => { g with events := rest }).modify run fun g =>
            { g with resolvers := g.resolvers.erase r.callId }).modify run fun g => { g with failed := true }) =
            w.guests.modify run fun g =>
              { g with
                events := rest
                resolvers := g.resolvers.erase r.callId
                failed := true } := by
          rw [hguests]
          exact List.modify_modify_eq _ _ run w.guests
        refine h.guestStep rfl hfailed rfl rfl rfl (fun _ _ _ hcall => hcall) fun n frame g' hp _ _ => ?_
        exact absurd hp.alive.2.2 Bool.noConfusion
    · exact hsettled

theorem takeEvent_noneLost (h : w.NoneLost) (hreg : w.Registered) {run : Nat} {g : Guest}
    (hg : w.guests[run]? = some g) (materialises : Bool) : NoneLost (w.takeEvent run g materialises) := by
  unfold takeEvent
  cases hevents : g.events with
  | nil => exact h
  | cons e rest =>
    dsimp only
    split
    next halive =>
      cases e with
      | response r => exact settle_noneLost h hreg hg hevents halive materialises
      | lost =>
        refine h.guestStep rfl (List.modify_modify_eq _ _ run w.guests) rfl rfl rfl (fun _ _ _ hcall => hcall)
          fun n frame g' hp _ _ => ?_
        exact absurd hp.alive.2.2 Bool.noConfusion
    next hdead =>
      refine h.guestStep rfl rfl rfl rfl rfl (fun _ _ _ hcall => hcall) fun n frame g' hp hg' _ => ?_
      rw [hg] at hg'
      cases hg'
      exact absurd hp.alive hdead

/-- The run does nothing about its events. -/
theorem NoneLost.touch (h : w.NoneLost) {w' : BridgeWorld} {run : Nat} {f : Guest → Guest}
    (hconn : w'.conn = w.conn) (hguests : w'.guests = w.guests.modify run f) (hhost : w'.toHost = w.toHost)
    (hruntime : w'.toRuntime = w.toRuntime) (hserved : w'.served = w.served)
    (hcalls : ∀ (n i : Nat) (frame : CallFrame), w'.calls[n]? = some ⟨i, frame, .pending⟩ →
      w.calls[n]? = some ⟨i, frame, .pending⟩)
    (herror : ∀ g, (f g).bridgeError = none → g.bridgeError = none) (hfailed : ∀ g, (f g).failed = g.failed)
    (hevents : ∀ g, (f g).events = g.events) (haborted : ∀ g, g.aborted = true → (f g).aborted = true) :
    w'.NoneLost := by
  refine h.guestStep hconn hguests hhost hruntime hserved hcalls fun n frame g hp hg hcall => ?_
  obtain ⟨⟨early, hrunning⟩, herror', hfailed'⟩ := hp.alive
  rw [hconn] at hrunning
  have hpend : w.Pending n run frame g :=
    ⟨hcall, hg, ⟨⟨early, hrunning⟩, herror g herror', (hfailed g).symm.trans hfailed'⟩, hconn ▸ hp.stands⟩
  exact (h n run frame g hpend).mono (hhost ▸ List.Subset.refl _) (hruntime ▸ List.Subset.refl _)
    (hserved ▸ List.Subset.refl _) ((hevents g).symm ▸ List.Subset.refl _) (haborted g)

theorem fatal_none {g : Guest} {e : RunError} (h : (g.fatal e).bridgeError = none) : False := by
  cases herror : g.bridgeError with
  | none =>
    rw [Guest.fatal, herror] at h
    cases h
  | some _ =>
    rw [Guest.fatal, herror] at h
    cases h

theorem enter_noneLost (h : w.NoneLost) (run : Nat) (g : Guest) (bound functionArg : Bool)
    (target : Option BridgeTarget) : NoneLost (w.enter run g bound functionArg target) := by
  have hfatal : ∀ {f : Guest → Guest} (e : RunError), (∀ g, (f g).failed = g.failed) →
      (∀ g, (f g).events = g.events) → (∀ g, g.aborted = true → (f g).aborted = true) →
      NoneLost (w.setGuest run fun g => (f g).fatal e) := fun e hfailed hevents haborted =>
    h.touch rfl rfl rfl rfl rfl (fun _ _ _ hcall => hcall) (fun _ hnone => (fatal_none hnone).elim) hfailed
      hevents haborted
  have htouch : ∀ {f : Guest → Guest}, (∀ g, (f g).bridgeError = g.bridgeError) →
      (∀ g, (f g).failed = g.failed) → (∀ g, (f g).events = g.events) →
      (∀ g, g.aborted = true → (f g).aborted = true) → NoneLost (w.setGuest run f) :=
    fun herror hfailed hevents haborted =>
    h.touch rfl rfl rfl rfl rfl (fun _ _ _ hcall => hcall) (fun g hnone => (herror g).symm.trans hnone) hfailed
      hevents haborted
  unfold enter
  split
  · exact h
  · split
    · exact hfatal _ (fun _ => rfl) (fun _ => rfl) fun _ hab => hab
    · split
      · exact hfatal _ (fun _ => rfl) (fun _ => rfl) fun _ hab => hab
      · split
        · exact htouch (fun _ => rfl) (fun _ => rfl) (fun _ => rfl) fun _ hab => hab
        · exact htouch (fun _ => rfl) (fun _ => rfl) (fun _ => rfl) fun _ hab => hab

/-- A call that is sent is on its way. -/
theorem NoneLost.sent (h : w.NoneLost) {run : Nat} {frame : CallFrame} (hrunning : w.Running run)
    {f : Guest → Guest} (herror : ∀ g, (f g).bridgeError = g.bridgeError) (hfailed : ∀ g, (f g).failed = g.failed)
    (hevents : ∀ g, (f g).events = g.events) (haborted : ∀ g, (f g).aborted = g.aborted) :
    NoneLost (((w.logCall run frame .pending).onConn (.runSends run) (some frame) none).setGuest run f) := by
  obtain ⟨id, hw, hstep⟩ := onConn_runSends (w := w.logCall run frame .pending) hrunning frame
  rw [hw]
  intro n i fr g' hp
  have hrun : ∀ j early, (w.conn.step (.runSends run)).stageOf j = some (.running early) →
      w.conn.stageOf j = some (.running early) := by
    intro j early hj
    change w.conn.step (.runSends run) = _ at hstep
    rw [hstep] at hj
    exact hj
  have hstands : w.conn.closed = false := by
    have hclosed := hp.stands
    change (w.conn.step (.runSends run)).closed = false at hclosed
    change w.conn.step (.runSends run) = _ at hstep
    rw [hstep] at hclosed
    exact hclosed
  obtain hold | ⟨-, heq⟩ := logCall_cases (w := w) hp.call
  · obtain ⟨⟨early, hrunning'⟩, herror', hfailed'⟩ := hp.alive
    have hmore : ∀ g, w.guests[i]? = some g → g.bridgeError = none → g.failed = false → w.Underway g fr :=
      fun g hg he hf => h n i fr g ⟨hold, hg, ⟨⟨early, hrun i early hrunning'⟩, he, hf⟩, hstands⟩
    have hguest := hp.guest
    by_cases heq : run = i
    · subst heq
      rw [setGuest, List.getElem?_modify_eq] at hguest
      obtain ⟨g, hg, rfl⟩ := Option.map_eq_some_iff.mp hguest
      refine (hmore g hg ((herror g).symm.trans herror') ((hfailed g).symm.trans hfailed')).mono
        (List.subset_append_left _ _) (List.Subset.refl _) (List.Subset.refl _) ?_ ?_
      · exact (hevents g).symm ▸ List.Subset.refl _
      · exact fun hab => (haborted g).trans hab
    · rw [setGuest, List.getElem?_modify_ne _ _ heq] at hguest
      exact (hmore g' hguest herror' hfailed').same (List.subset_append_left _ _) (List.Subset.refl _)
        (List.Subset.refl _)
  · cases heq
    exact .sent (List.mem_append_right _ (List.mem_singleton.mpr rfl))

theorem leave_noneLost (h : w.NoneLost) (run : Nat) (g : Guest) (argsBlob : Except RunError Blob) (killed : Bool)
    (link : Option String) : NoneLost (w.leave run g argsBlob killed link) := by
  have hunsent : ∀ (frame : CallFrame) (f : Guest → Guest), (∀ g, (f g).bridgeError = none → g.bridgeError = none) →
      (∀ g, (f g).failed = g.failed) → (∀ g, (f g).events = g.events) →
      (∀ g, g.aborted = true → (f g).aborted = true) →
      NoneLost ((w.logCall run frame .unsent).setGuest run f) := by
    intro frame f herror hfailed hevents haborted
    refine h.touch rfl rfl rfl rfl rfl (fun n i fr hcall => ?_) herror hfailed hevents haborted
    obtain hold | ⟨-, heq⟩ := logCall_cases hcall
    · exact hold
    · cases heq
  unfold leave
  split
  · exact h
  · exact h.touch rfl rfl rfl rfl rfl (fun _ _ _ hcall => hcall) (fun _ hnone => (fatal_none hnone).elim)
      (fun _ => rfl) (fun _ => rfl) fun _ hab => hab
  · dsimp only
    split
    · exact hunsent _ _ (fun _ hnone => (fatal_none hnone).elim) (fun _ => rfl) (fun _ => rfl) fun _ hab => hab
    · split
      · exact hunsent _ _ (fun _ hnone => hnone) (fun _ => rfl) (fun _ => rfl) fun _ hab => hab
      next hlive =>
        split
        · exact hunsent _ _ (fun _ hnone => (fatal_none hnone).elim) (fun _ => rfl) (fun _ => rfl) fun _ hab => hab
        · have hrunning : w.Running run := not_not.mp (not_or.mp (not_or.mp hlive).2).2
          exact h.sent hrunning (fun _ => rfl) (fun _ => rfl) (fun _ => rfl) fun _ => rfl

/-- A step of the connection that is about no call. -/
theorem plain_noneLost (h : w.NoneLost) (hs : w.Sound) (e : RunIdStep) {w' : BridgeWorld}
    (hconn : w'.conn = w.conn.step e) (hcalls : w'.calls = w.calls) (hserved : w'.served = w.served)
    (hhost : w.toHost ⊆ w'.toHost) (hruntime : w.toRuntime ⊆ w'.toRuntime)
    (hguests : ∀ run g, w'.guests[run]? = some g → run < w.guests.length → w.guests[run]? = some g)
    (hcounted : w.Counted) : w'.NoneLost := by
  intro n run frame g hp
  have hcall : w.calls[n]? = some ⟨run, frame, .pending⟩ := hcalls ▸ hp.call
  have hmoves : w.conn.Moves w'.conn := hconn ▸ RunWorld.step_moves hs.fresh e
  have hlt : run < w.guests.length :=
    hcounted.started run (List.mem_map.mpr ⟨_, List.mem_of_getElem? hcall, rfl⟩)
  have hstands : w.conn.closed = false := by
    cases hclosed : w.conn.closed with
    | false => rfl
    | true => exact (hmoves.closed hclosed).symm.trans hp.stands
  have hpend : w.Pending n run frame g :=
    ⟨hcall, hguests run g hp.guest hlt,
      hp.alive.before hmoves (hs.begun run frame ⟨n, .pending, hcall⟩) rfl, hstands⟩
  exact (h n run frame g hpend).same hhost hruntime (hserved ▸ List.Subset.refl _)

theorem step_noneLost (h : w.NoneLost) (hs : w.Sound) (hcounted : w.Counted) (hreg : w.Registered) (op : BridgeOp)
    (hlen : w.calls.length ≤ 2 ^ 32) : NoneLost (w.step op) := by
  cases op with
  | start encodes guest =>
    exact plain_noneLost h hs (.start encodes) rfl rfl rfl (List.subset_append_left _ _)
      (List.subset_append_left _ _)
      (fun run g hg hlt => (List.getElem?_append_left hlt).symm.trans hg) hcounted
  | abort run =>
    exact h.touch rfl rfl rfl rfl rfl (fun _ _ _ hcall => hcall) (fun _ hnone => hnone) (fun _ => rfl)
      (fun _ => rfl) fun _ _ => rfl
  | enter run bound functionArg target =>
    dsimp only [step]
    cases w.guests[run]? with
    | none => exact h
    | some g => exact enter_noneLost h run g bound functionArg target
  | leave run argsBlob killed link =>
    dsimp only [step]
    cases w.guests[run]? with
    | none => exact h
    | some g => exact leave_noneLost h run g argsBlob killed link
  | route decoding => exact route_noneLost h hs hlen decoding
  | settle i a =>
    dsimp only [step]
    cases hi : w.served[i]? with
    | none => exact h
    | some s =>
      dsimp only [Option.elim_some]
      split
      · exact settlePhase_noneLost h hi a
      · exact h
  | answer i failure =>
    dsimp only [step]
    cases hi : w.served[i]? with
    | none => exact h
    | some s =>
      dsimp only [Option.elim_some]
      split
      · exact answer_noneLost h hs hlen hi _ failure
      · exact h
  | answerAgain i failure =>
    dsimp only [step]
    cases hi : w.served[i]? with
    | none => exact h
    | some s =>
      dsimp only [Option.elim_some]
      split
      · exact write_noneLost h hs hi _ _
      · exact h
  | receive taken => exact receive_noneLost h hs hlen taken
  | takeEvent run materialises =>
    dsimp only [step]
    cases hg : w.guests[run]? with
    | none => exact h
    | some g => exact takeEvent_noneLost h hreg hg materialises
  | other e =>
    dsimp only [step]
    split
    · exact plain_noneLost h hs e rfl rfl rfl (List.subset_append_left _ _) (List.subset_append_left _ _)
        (fun _ _ hg _ => hg) hcounted
    · exact h

/-! ### Whole runs -/

/-- What holds in every state, while the ids of the calls have not wrapped. -/
structure Always (w : BridgeWorld) : Prop where
  counted : w.Counted
  sound : w.calls.length ≤ 2 ^ 32 → w.Sound
  registered : w.calls.length ≤ 2 ^ 32 → w.Registered
  noneLost : w.calls.length ≤ 2 ^ 32 → w.NoneLost

theorem Always.new : Always .new where
  counted := .new
  sound := fun _ => .new
  registered := fun _ _ _ _ _ h => by cases h
  noneLost := fun _ _ _ _ _ hp => by cases hp.call

theorem step_always (h : w.Always) (op : BridgeOp) : Always (w.step op) where
  counted := step_counted h.counted op
  sound := fun hlen => step_sound (h.sound (le_trans (step_extends w op).length_le hlen)) op hlen
  registered := by
    intro hlen
    have hbefore := le_trans (step_extends w op).length_le hlen
    exact step_registered (h.registered hbefore) (h.sound hbefore) h.counted op hlen
  noneLost := by
    intro hlen
    have hbefore := le_trans (step_extends w op).length_le hlen
    exact step_noneLost (h.noneLost hbefore) (h.sound hbefore) h.counted (h.registered hbefore) op hbefore

theorem always (ops : List BridgeOp) : Always (exec step .new ops) :=
  exec_invariant (I := Always) (fun _ op h => step_always h op) .new ops

/-- No run waits for a call that is settled, so it stays settled. -/
theorem step_settled (h : w.Sound) (op : BridgeOp) {n run : Nat} {frame : CallFrame} {a : CallAnswer}
    (hget : w.calls[n]? = some ⟨run, frame, .settled a⟩) :
    (w.step op).calls[n]? = some ⟨run, frame, .settled a⟩ := by
  obtain ⟨state, hget', rfl | ⟨i, g, id, hg, hlookup⟩⟩ := step_extends w op n _ hget
  · exact hget'
  · obtain ⟨fr, hpending, -⟩ := (h.guests i g hg).resolvers id n hlookup
    rw [hget] at hpending
    cases hpending

theorem length_le_exec (w : BridgeWorld) (ops : List BridgeOp) :
    w.calls.length ≤ (exec step w ops).calls.length := by
  induction ops generalizing w with
  | nil => exact le_refl _
  | cons op ops ih => exact le_trans (step_extends w op).length_le (ih (w.step op))

theorem exec_settled {ops : List BridgeOp} (h : w.Always) (hlen : (exec step w ops).calls.length ≤ 2 ^ 32)
    {n run : Nat} {frame : CallFrame} {a : CallAnswer} (hget : w.calls[n]? = some ⟨run, frame, .settled a⟩) :
    (exec step w ops).calls[n]? = some ⟨run, frame, .settled a⟩ := by
  induction ops generalizing w with
  | nil => exact hget
  | cons op ops ih =>
    have hsound := h.sound (le_trans (length_le_exec w (op :: ops)) hlen)
    exact ih (step_always h op) hlen (step_settled hsound op hget)

end BridgeWorld

/-! ### The results -/

/-- Whatever the order of the steps: a handler is started for a call that a run made, with its
target and its arguments, and for no call twice; a promise is settled by an answer the host
wrote for its own call, and is settled once. -/
theorem bridge_calls_answered (ops more : List BridgeOp)
    (hids : (exec BridgeWorld.step .new (ops ++ more)).calls.length ≤ 2 ^ 32) :
    let w := exec BridgeWorld.step .new ops
    (∀ s ∈ w.served, ∃ (n : Nat) (state : CallState), w.calls[n]? = some ⟨s.run, s.frame, state⟩) ∧
    (w.served.map fun s => s.frame.callId).Nodup ∧
    (∀ (n run : Nat) (frame : CallFrame) (a : CallAnswer), w.calls[n]? = some ⟨run, frame, .settled a⟩ →
      (∃ s ∈ w.served, s.run = run ∧ s.frame = frame ∧ a ∈ s.written) ∧
      (exec BridgeWorld.step .new (ops ++ more)).calls[n]? = some ⟨run, frame, .settled a⟩) := by
  rw [exec_append] at hids ⊢
  have halways := BridgeWorld.always ops
  have hsound := halways.sound (le_trans (BridgeWorld.length_le_exec _ more) hids)
  refine ⟨hsound.served, (List.nodup_append.mp hsound.once).2.1, fun n run frame a hget => ⟨?_, ?_⟩⟩
  · exact hsound.settled n run frame a hget
  · exact BridgeWorld.exec_settled halways hids hget

/-- A run that makes one call, which its handler answers. -/
def oneCall : List BridgeOp :=
  [.start true (.new 2 100 1000 true), .receive true, .enter 0 true false (some (.global "f")),
    .leave 0 (.ok [1, 2]) false none, .route none, .settle 0 (.ok none), .answer 0 ⟨"", "", none⟩,
    .receive true, .takeEvent 0 true]

theorem oneCall_answered : ∃ s ∈ (exec BridgeWorld.step .new oneCall).served,
    s.run = 0 ∧ s.frame = ⟨0, .global "f", [1, 2]⟩ ∧ .ok none ∈ s.written :=
  ((bridge_calls_answered oneCall [] (by decide +kernel)).2.2 0 0 ⟨0, .global "f", [1, 2]⟩ (.ok none) rfl).1

/-- The call is sent. -/
def callSent : List BridgeOp := oneCall.take 4

end Iso4
