/-
The calls a run has made against its limit.

A call takes its id after its arguments are serialized, and their getters may make calls of
their own, so a run has calls that may still get an id; they are counted with those that
have one.

* `BridgeWorld.Counted`, `BridgeWorld.step_counted` — no run gets more ids than its limit.
-/
import Iso4.BridgeSafety

namespace Iso4

open BridgeCalls Wire Ipc

namespace BridgeWorld

variable {w : BridgeWorld}

/-! ### The limit of a run -/

def made (w : BridgeWorld) (run : Nat) : Nat := (w.calls.map Call.run).count run

/-- The calls of a run that got an id, with those that may still get one. -/
structure Counted (w : BridgeWorld) : Prop where
  started : ∀ run ∈ w.calls.map Call.run, run < w.guests.length
  limit : ∀ run g, w.guests[run]? = some g → w.made run + g.entered.length ≤ g.callCount ∧
    (0 < g.maxBridgeCalls → w.made run + g.entered.length ≤ g.maxBridgeCalls)

theorem Counted.new : Counted .new := ⟨fun _ h => absurd h List.not_mem_nil, fun _ _ h => by cases h⟩

/-- What a run has of its limit. -/
def tally (g : Guest) : Nat × Nat × Nat := (g.maxBridgeCalls, g.callCount, g.entered.length)

structure SameTally (w w' : BridgeWorld) : Prop where
  calls : w'.calls.map Call.run = w.calls.map Call.run
  guests : w'.guests.map tally = w.guests.map tally

theorem Counted.same (h : w.Counted) {w' : BridgeWorld} (hsame : w.SameTally w') : w'.Counted where
  started := by
    have hlen : w'.guests.length = w.guests.length := by
      rw [← List.length_map (f := tally), hsame.guests, List.length_map]
    rw [hsame.calls, hlen]
    exact h.started
  limit := by
    intro run g hg
    have hmap : (w.guests.map tally)[run]? = some (tally g) := by
      rw [← hsame.guests, List.getElem?_map, hg]
      rfl
    rw [List.getElem?_map] at hmap
    obtain ⟨g', hg', htally⟩ := Option.map_eq_some_iff.mp hmap
    obtain ⟨hmax, hrest⟩ := Prod.mk.inj htally
    obtain ⟨hcount, hentered⟩ := Prod.mk.inj hrest
    rw [made, hsame.calls, ← hmax, ← hcount, ← hentered]
    exact h.limit run g' hg'

theorem SameTally.trans {w' w'' : BridgeWorld} (h : w.SameTally w') (h' : w'.SameTally w'') :
    w.SameTally w'' :=
  ⟨h'.calls.trans h.calls, h'.guests.trans h.guests⟩

theorem SameTally.refl (w : BridgeWorld) : w.SameTally w := ⟨rfl, rfl⟩

theorem SameTally.setGuest {w' : BridgeWorld} (h : w.SameTally w') (run : Nat) {f : Guest → Guest}
    (hf : ∀ g, tally (f g) = tally g) : w.SameTally (w'.setGuest run f) :=
  ⟨h.calls, (map_modify_same hf _ _).trans h.guests⟩

theorem SameTally.settleCall {w' : BridgeWorld} (h : w.SameTally w') (n : Nat) (a : CallAnswer) :
    w.SameTally (w'.settleCall n a) := by
  refine ⟨Eq.trans (map_modify_same ?_ _ _) h.calls, h.guests⟩
  exact fun _ => rfl

theorem Leaves.tally {w' : BridgeWorld} (h : w.Leaves w') : w.SameTally w' := by
  refine ⟨congrArg (List.map Call.run) h.calls, ?_⟩
  have hmap := congrArg (List.map fun o => (o.1, o.2.1, o.2.2.1.length)) h.guests
  rw [List.map_map, List.map_map] at hmap
  exact hmap

theorem settle_tally (w : BridgeWorld) (run : Nat) (g : Guest) (r : ResponseFrame) (materialises : Bool) :
    w.SameTally (w.settle run g r materialises) := by
  have herased : w.SameTally (w.setGuest run fun g => { g with resolvers := g.resolvers.erase r.callId }) :=
    (SameTally.refl w).setGuest run fun _ => rfl
  unfold settle
  split
  · exact .refl w
  · dsimp only
    split
    · split
      · exact herased.settleCall _ _
      · exact herased.setGuest run fun _ => rfl
    · exact herased.settleCall _ _

theorem takeEvent_tally (w : BridgeWorld) (run : Nat) (g : Guest) (materialises : Bool) :
    w.SameTally (w.takeEvent run g materialises) := by
  unfold takeEvent
  split
  · exact .refl w
  next rest _ =>
    have hrest : w.SameTally (w.setGuest run fun g => { g with events := rest }) :=
      (SameTally.refl w).setGuest run fun _ => rfl
    dsimp only
    split
    · split
      · exact hrest.setGuest run fun _ => rfl
      · exact hrest.trans (settle_tally _ run g _ materialises)
    · exact hrest

/-- A run enters a call, or one that it has entered gets an id or is given up. -/
theorem Counted.setGuest (h : w.Counted) {run n : Nat} {f : Guest → Guest} {w' : BridgeWorld}
    (hcalls : w'.calls.map Call.run = w.calls.map Call.run ++ List.replicate n run)
    (hguests : w'.guests = w.guests.modify run f) (hmax : ∀ g, (f g).maxBridgeCalls = g.maxBridgeCalls)
    {g : Guest} (hg : w.guests[run]? = some g)
    (hf : w.made run + n + (f g).entered.length ≤ (f g).callCount ∧
      (0 < g.maxBridgeCalls → w.made run + n + (f g).entered.length ≤ g.maxBridgeCalls)) : Counted w' where
  started := by
    intro i hi
    rw [hguests, List.length_modify]
    rw [hcalls] at hi
    rcases List.mem_append.mp hi with hi | hi
    · exact h.started i hi
    · rw [List.eq_of_mem_replicate hi]
      exact (List.getElem?_eq_some_iff.mp hg).1
  limit := by
    intro i g' hg'
    rw [made, hcalls, List.count_append]
    rw [hguests] at hg'
    by_cases heq : run = i
    · subst heq
      rw [List.getElem?_modify_eq, hg] at hg'
      cases hg'
      rw [hmax, List.count_replicate_self]
      exact hf
    · rw [List.getElem?_modify_ne _ _ heq] at hg'
      rw [List.count_replicate, if_neg (fun hbeq => heq (beq_iff_eq.mp hbeq)), Nat.add_zero]
      exact h.limit i g' hg'

theorem enter_counted (h : w.Counted) {run : Nat} {g : Guest} (hg : w.guests[run]? = some g)
    (bound functionArg : Bool) (target : Option BridgeTarget) :
    Counted (w.enter run g bound functionArg target) := by
  have hlimit := h.limit run g hg
  have hmore : ∀ f : Guest → Guest, (∀ g, (f g).maxBridgeCalls = g.maxBridgeCalls) →
      (f g).callCount = g.callCount + 1 → (f g).entered.length = g.entered.length →
      Counted (w.setGuest run f) := by
    intro f hmax hcount hentered
    refine h.setGuest (n := 0) (List.append_nil _).symm rfl hmax hg ?_
    rw [hcount, hentered]
    exact ⟨by omega, fun hpos => by have := hlimit.2 hpos; omega⟩
  unfold enter
  split
  · exact h
  · split
    · exact hmore _ (fun _ => rfl) rfl rfl
    next hbelow =>
      split
      · exact hmore _ (fun _ => rfl) rfl rfl
      · split
        · exact hmore _ (fun _ => rfl) rfl rfl
        next t =>
          refine h.setGuest (n := 0) (List.append_nil _).symm rfl (fun _ => rfl) hg ?_
          dsimp only [List.length_cons]
          exact ⟨by omega, fun hpos => by omega⟩

theorem leave_counted (h : w.Counted) {run : Nat} {g : Guest} (hg : w.guests[run]? = some g)
    (argsBlob : Except RunError Blob) (killed : Bool) (link : Option String) :
    Counted (w.leave run g argsBlob killed link) := by
  unfold leave
  cases hentered : g.entered with
  | nil => exact h
  | cons target rest =>
    have hlimit := h.limit run g hg
    rw [hentered, List.length_cons] at hlimit
    -- the call that was entered is given up, or is the newest of the run's calls
    have hgone : ∀ {n : Nat} {f : Guest → Guest} {w' : BridgeWorld}, n ≤ 1 →
        w'.calls.map Call.run = w.calls.map Call.run ++ List.replicate n run →
        w'.guests = w.guests.modify run f → (∀ g, (f g).maxBridgeCalls = g.maxBridgeCalls) →
        (f g).callCount = g.callCount → (f g).entered = rest → Counted w' := by
      intro n f w' hn hcalls hguests hmax hcount hrest
      refine h.setGuest hcalls hguests hmax hg ?_
      rw [hcount, hrest]
      exact ⟨by omega, fun hpos => by have := hlimit.2 hpos; omega⟩
    have hlogged : ∀ frame state, (w.calls ++ [(⟨run, frame, state⟩ : Call)]).map Call.run =
        w.calls.map Call.run ++ List.replicate 1 run := fun _ _ => List.map_append
    cases argsBlob with
    | error e => exact hgone (Nat.zero_le 1) (List.append_nil _).symm rfl (fun _ => rfl) rfl rfl
    | ok args =>
      dsimp only
      split
      · exact hgone (le_refl 1) (hlogged _ _) rfl (fun _ => rfl) rfl rfl
      · split
        · exact hgone (le_refl 1) (hlogged _ _) rfl (fun _ => rfl) rfl rfl
        · cases link with
          | some e => exact hgone (le_refl 1) (hlogged _ _) rfl (fun _ => rfl) rfl rfl
          | none => exact hgone (le_refl 1) (hlogged _ _) rfl (fun _ => rfl) rfl rfl

theorem begin_counted (h : w.Counted) (encodes : Bool) (guest : Guest) : Counted (w.begin encodes guest) where
  started := by
    intro run hrun
    have hlt : run < w.guests.length := h.started run hrun
    show run < (w.guests ++ List.replicate _ _).length
    rw [List.length_append]
    omega
  limit := by
    intro run g hg
    rcases lt_or_ge run w.guests.length with hlt | hge
    · exact h.limit run g ((List.getElem?_append_left hlt).symm.trans hg)
    · have hnone : w.made run = 0 := by
        refine List.count_eq_zero.mpr fun hmem => ?_
        have := h.started run hmem
        omega
      have hnew := List.mem_of_getElem? ((List.getElem?_append_right hge).symm.trans hg)
      rw [List.eq_of_mem_replicate hnew]
      have hzero : (w.begin encodes guest).made run + 0 ≤ 0 := hnone.le
      exact ⟨hzero, fun _ => hzero.trans (Nat.zero_le _)⟩

theorem step_counted (h : w.Counted) (op : BridgeOp) : Counted (w.step op) := by
  refine step_keeps (P := Counted) ?_ ?_ ?_ ?_ ?_ op
  · exact fun w' hleaves => h.same hleaves.tally
  · exact begin_counted h
  · exact fun run g bound functionArg target hg => enter_counted h hg bound functionArg target
  · exact fun run g argsBlob killed link hg => leave_counted h hg argsBlob killed link
  · exact fun run g materialises _ => h.same (takeEvent_tally w run g materialises)

end BridgeWorld

end Iso4
