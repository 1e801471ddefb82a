/-
`AsyncLocalStorage` over the continuation-preserved slot: `crates/core/src/v8/node/async_hooks.rs`
with the rider of `crates/core/src/v8/runtable.rs`.

The slot holds the token of a run beside a chain of frames.  V8 saves it with each promise
reaction and puts it back when the reaction runs, whichever run's turn that is; `run` writes it
before the callback and in its `finally`.  What the guest is promised is said without a slot:
code sees the stores of the `run` calls around it, and a reaction those around the place it
was attached at.

Guest code is a tree of what it does with an instance, a native callback or a promise, with
one continuation for each result it may see, so it is any code at all.

* `Lexical.eval`, `Lexical.step` — code with the bindings around it;
* `AsyncWorld.exec`, `AsyncWorld.step` — code with the slot;
* `async_context_lexical` — they see the same, in every order of turns and reactions;
* `async_context_isolated` — a run sees stores of its own code, and of set-up code, only.
-/
import Iso4.Lib.Execution
import Mathlib.Data.List.Forall2

namespace Iso4

open Execution

/-! ### Guest code -/

/-- `K` are the instances, `V` the values. -/
inductive GuestCode (K V : Type) where
  | finish (thrown : Bool)
  /-- The isolate is terminated: no `finally` runs. -/
  | killed
  /-- `als.run(store, callback)`; what follows is told whether it threw. -/
  | run (als : K) (store : V) (callback : GuestCode K V) (rest : Bool → GuestCode K V)
  /-- `als.getStore()`. -/
  | getStore (als : K) (rest : V → GuestCode K V)
  /-- A native callback, which attributes to a run. -/
  | native (rest : GuestCode K V)
  /-- An `await` or a `then`: the reaction is told the promise's value. -/
  | attach (reaction : V → GuestCode K V) (rest : GuestCode K V)

inductive CodeEnd where
  | finished (thrown : Bool)
  | killed
  deriving DecidableEq

/-- What code has seen: of `getStore` the value, with the rider's token; of a native callback
the token it attributed to, and whether that run is in the table. -/
inductive Glimpse (K V : Type) where
  | store (token : Option Nat) (als : K) (value : V)
  | native (token : Nat) (live : Bool)
  deriving DecidableEq

inductive AsyncStep (K V : Type) where
  /-- A run is inserted in the table, or removed. -/
  | start (token : Nat)
  | conclude (token : Nat)
  /-- Set-up code, outside any run. -/
  | setup (code : GuestCode K V)
  /-- A turn of a run calls into the guest. -/
  | turn (token : Nat) (code : GuestCode K V)
  /-- The reaction of a promise that has settled runs, in whatever turn it is. -/
  | react (i : Nat) (value : V)
  /-- The turn ends. -/
  | idle

/-- `attributed_token_and_state`, on the token of the rider. -/
def attributedToken (current : Nat) (live : List Nat) (rider : Option Nat) : Nat :=
  match rider with
  | some token => if token ≠ current ∧ token ∈ live then token else current
  | none => current

/-! ### What code sees -/

/-- The bindings around the place a reaction was attached at, and the run it is of. -/
structure Lexical.Reaction (K V : Type) where
  bindings : List (K × V)
  creator : Option Nat
  code : V → GuestCode K V

structure Lexical (K V : Type) where
  current : Nat
  live : List Nat
  seen : List (Glimpse K V)
  reactions : List (Lexical.Reaction K V)

namespace Lexical

variable {K V : Type} [DecidableEq K]

def new : Lexical K V := ⟨0, [], [], []⟩

/-- The innermost binding. -/
def lookup (undefined : V) (bindings : List (K × V)) (als : K) : V :=
  ((bindings.find? fun b => b.1 = als).map Prod.snd).getD undefined

/-- Code runs with the bindings around it.  Code that is of no run, and calls `run`, is of the
run whose turn it is from there on. -/
def eval (undefined : V) : GuestCode K V → List (K × V) → Option Nat → Lexical K V →
    CodeEnd × Option Nat × Lexical K V
  | .finish thrown, _, creator, w => (.finished thrown, creator, w)
  | .killed, _, creator, w => (.killed, creator, w)
  | .run als store callback rest, bindings, creator, w =>
    let creator' := some (creator.getD w.current)
    match eval undefined callback ((als, store) :: bindings) creator' w with
    | (.killed, _, w') => (.killed, creator', w')
    | (.finished thrown, _, w') => eval undefined (rest thrown) bindings creator' w'
  | .getStore als rest, bindings, creator, w =>
    let value := lookup undefined bindings als
    eval undefined (rest value) bindings creator { w with seen := w.seen ++ [.store creator als value] }
  | .native rest, bindings, creator, w =>
    let token := attributedToken w.current w.live creator
    eval undefined rest bindings creator { w with seen := w.seen ++ [.native token (token ∈ w.live)] }
  | .attach reaction rest, bindings, creator, w =>
    eval undefined rest bindings creator
      { w with reactions := w.reactions ++ [⟨bindings, creator, reaction⟩] }

/-- Code that is of a run stays so. -/
theorem eval_creator (undefined : V) (code : GuestCode K V) (bindings : List (K × V)) (token : Nat)
    (w : Lexical K V) : (eval undefined code bindings (some token) w).2.1 = some token := by
  induction code generalizing bindings w with
  | finish thrown => rfl
  | killed => rfl
  | run als store callback rest _ ihRest =>
    rw [eval, Option.getD_some]
    split
    · rfl
    · exact ihRest _ bindings _
  | getStore als rest ih =>
    rw [eval]
    exact ih _ bindings _
  | native rest ih =>
    rw [eval]
    exact ih bindings _
  | attach reaction rest _ ih =>
    rw [eval]
    exact ih bindings _

def step (undefined : V) (w : Lexical K V) : AsyncStep K V → Lexical K V
  | .start token => { w with live := token :: w.live }
  | .conclude token => { w with live := w.live.filter (· ≠ token) }
  | .setup code => (eval undefined code [] none { w with current := 0 }).2.2
  | .turn token code => (eval undefined code [] (some token) { w with current := token }).2.2
  | .react i value =>
    (w.reactions[i]?).elim w fun r =>
      (eval undefined (r.code value) r.bindings r.creator { w with reactions := w.reactions.eraseIdx i }).2.2
  | .idle => { w with current := 0 }

end Lexical

/-! ### The slot -/

/-- `{ p, k, v }`. -/
inductive AsyncFrame (K V : Type) where
  | undefined
  | frame (p : AsyncFrame K V) (k : K) (v : V)

/-- `[token, inner]`; no rider before one is installed. -/
abbrev Cped (K V : Type) := Option (Nat × AsyncFrame K V)

/-- A reaction with the slot V8 saved for it. -/
structure SavedReaction (K V : Type) where
  cped : Cped K V
  code : V → GuestCode K V

structure AsyncWorld (K V : Type) where
  current : Nat
  live : List Nat
  cped : Cped K V
  seen : List (Glimpse K V)
  reactions : List (SavedReaction K V)

namespace AsyncFrame

variable {K V : Type} [DecidableEq K]

/-- The loop of `getStore`. -/
def find (undefined : V) (als : K) : AsyncFrame K V → V
  | .undefined => undefined
  | .frame p k v => if k = als then v else p.find undefined als

def bindings : AsyncFrame K V → List (K × V)
  | .undefined => []
  | .frame p k v => (k, v) :: p.bindings

theorem find_eq (undefined : V) (als : K) (f : AsyncFrame K V) :
    f.find undefined als = Lexical.lookup undefined f.bindings als := by
  induction f with
  | undefined => rfl
  | frame p k v ih =>
    rw [find, bindings, Lexical.lookup, List.find?_cons]
    by_cases h : k = als
    · simp [h]
    · simpa [h, Lexical.lookup] using ih

end AsyncFrame

namespace AsyncWorld

variable {K V : Type} [DecidableEq K]

def new : AsyncWorld K V := ⟨0, [], none, [], []⟩

/-- `async_context_get_callback`. -/
def getContext (w : AsyncWorld K V) : AsyncFrame K V := (w.cped.map Prod.snd).getD .undefined

/-- `async_context_set_callback`: the rider keeps its token. -/
def setContext (w : AsyncWorld K V) (frame : AsyncFrame K V) : AsyncWorld K V :=
  { w with cped := some ((w.cped.map Prod.fst).getD w.current, frame) }

def exec (undefined : V) : GuestCode K V → AsyncWorld K V → CodeEnd × AsyncWorld K V
  | .finish thrown, w => (.finished thrown, w)
  | .killed, w => (.killed, w)
  | .run als store callback rest, w =>
    let parent := w.getContext
    match exec undefined callback (w.setContext (.frame parent als store)) with
    | (.killed, w') => (.killed, w')
    -- the `finally`
    | (.finished thrown, w') => exec undefined (rest thrown) (w'.setContext parent)
  | .getStore als rest, w =>
    let value := w.getContext.find undefined als
    exec undefined (rest value) { w with seen := w.seen ++ [.store (w.cped.map Prod.fst) als value] }
  | .native rest, w =>
    let token := attributedToken w.current w.live (w.cped.map Prod.fst)
    exec undefined rest { w with seen := w.seen ++ [.native token (token ∈ w.live)] }
  | .attach reaction rest, w =>
    exec undefined rest { w with reactions := w.reactions ++ [⟨w.cped, reaction⟩] }

/-- `install_cped_rider`. -/
def installRider (w : AsyncWorld K V) (token : Nat) : AsyncWorld K V :=
  { w with current := token, cped := some (token, .undefined) }

def step (undefined : V) (w : AsyncWorld K V) : AsyncStep K V → AsyncWorld K V
  | .start token => { w with live := token :: w.live }
  | .conclude token => { w with live := w.live.filter (· ≠ token) }
  | .setup code => (exec undefined code { w with current := 0, cped := none }).2
  | .turn token code => (exec undefined code (w.installRider token)).2
  | .react i value =>
    (w.reactions[i]?).elim w fun r =>
      (exec undefined (r.code value) { w with cped := r.cped, reactions := w.reactions.eraseIdx i }).2
  | .idle => { w with current := 0 }

/-! ### The slot against the bindings -/

/-- A slot with its rider, for code of a run, or none, for code of no run. -/
def Holds (cped : Cped K V) (bindings : List (K × V)) (creator : Option Nat) : Prop :=
  cped.map Prod.fst = creator ∧ ((cped.map Prod.snd).getD .undefined).bindings = bindings

def Saves (r : SavedReaction K V) (l : Lexical.Reaction K V) : Prop :=
  Holds r.cped l.bindings l.creator ∧ r.code = l.code

structure Agrees (w : AsyncWorld K V) (l : Lexical K V) : Prop where
  current : w.current = l.current
  live : w.live = l.live
  seen : w.seen = l.seen
  reactions : List.Forall₂ Saves w.reactions l.reactions

omit [DecidableEq K] in
theorem Agrees.see {w : AsyncWorld K V} {l : Lexical K V} (h : Agrees w l) {s s' : Glimpse K V} (hs : s = s') :
    Agrees { w with seen := w.seen ++ [s] } { l with seen := l.seen ++ [s'] } :=
  ⟨h.current, h.live, by rw [hs, h.seen], h.reactions⟩

/-- Code that ends leaves the slot as it found it, but for the rider that its first `run` made. -/
theorem exec_agrees (undefined : V) (code : GuestCode K V) {w : AsyncWorld K V} {l : Lexical K V}
    {bindings : List (K × V)} {creator : Option Nat} (hw : Agrees w l) (hcped : Holds w.cped bindings creator) :
    (exec undefined code w).1 = (Lexical.eval undefined code bindings creator l).1 ∧
    Agrees (exec undefined code w).2 (Lexical.eval undefined code bindings creator l).2.2 ∧
    ((exec undefined code w).1 ≠ .killed →
      Holds (exec undefined code w).2.cped bindings (Lexical.eval undefined code bindings creator l).2.1) := by
  induction code generalizing w l bindings creator with
  | finish thrown => exact ⟨rfl, hw, fun _ => hcped⟩
  | killed => exact ⟨rfl, hw, fun hne => absurd rfl hne⟩
  | run als store callback rest ihCallback ihRest =>
    obtain ⟨htoken, hbindings⟩ := hcped
    have htoken' : (w.cped.map Prod.fst).getD w.current = creator.getD l.current := by rw [htoken, hw.current]
    have henter : Agrees (w.setContext (.frame w.getContext als store)) l :=
      ⟨hw.current, hw.live, hw.seen, hw.reactions⟩
    have hinner : Holds (w.setContext (.frame w.getContext als store)).cped ((als, store) :: bindings)
        (some (creator.getD l.current)) :=
      ⟨congrArg some htoken', congrArg ((als, store) :: ·) hbindings⟩
    obtain ⟨hdone, hagrees, hleaves⟩ := ihCallback henter hinner
    have hcreator := Lexical.eval_creator undefined callback ((als, store) :: bindings) (creator.getD l.current) l
    rw [exec, Lexical.eval]
    generalize exec undefined callback (w.setContext (.frame w.getContext als store)) = r at hdone hagrees hleaves ⊢
    generalize Lexical.eval undefined callback ((als, store) :: bindings) (some (creator.getD l.current)) l = r'
      at hdone hagrees hleaves hcreator ⊢
    obtain ⟨c, w'⟩ := r
    obtain ⟨c', creator', l'⟩ := r'
    cases hdone
    cases hcreator
    cases c with
    | killed => exact ⟨rfl, hagrees, fun hne => absurd rfl hne⟩
    | finished thrown =>
      -- the parent's frame is put back, under the token the rider has by now
      obtain ⟨hrider, -⟩ := hleaves CodeEnd.noConfusion
      have hexit : Agrees (w'.setContext w.getContext) l' :=
        ⟨hagrees.current, hagrees.live, hagrees.seen, hagrees.reactions⟩
      have hparent : Holds (w'.setContext w.getContext).cped bindings (some (creator.getD l.current)) := by
        refine ⟨?_, hbindings⟩
        show some ((w'.cped.map Prod.fst).getD w'.current) = _
        rw [hrider, Option.getD_some]
      exact ihRest thrown hexit hparent
  | getStore als rest ih =>
    have hvalue : w.getContext.find undefined als = Lexical.lookup undefined bindings als := by
      rw [AsyncFrame.find_eq, getContext, hcped.2]
    rw [exec, Lexical.eval, hvalue]
    exact ih _ (hw.see (by rw [hcped.1])) hcped
  | native rest ih =>
    rw [exec, Lexical.eval, hcped.1]
    exact ih (hw.see (by rw [hw.current, hw.live])) hcped
  | attach reaction rest _ ih =>
    rw [exec, Lexical.eval]
    refine ih ⟨hw.current, hw.live, hw.seen, ?_⟩ hcped
    exact List.rel_append hw.reactions (.cons ⟨hcped, rfl⟩ .nil)

theorem step_agrees (undefined : V) {w : AsyncWorld K V} {l : Lexical K V} (h : Agrees w l) (s : AsyncStep K V) :
    Agrees (step undefined w s) (Lexical.step undefined l s) := by
  cases s with
  | start token => exact ⟨h.current, congrArg (token :: ·) h.live, h.seen, h.reactions⟩
  | conclude token => exact ⟨h.current, congrArg (List.filter (· ≠ token)) h.live, h.seen, h.reactions⟩
  | idle => exact ⟨rfl, h.live, h.seen, h.reactions⟩
  | setup code =>
    have hstart : Agrees { w with current := 0, cped := none } { l with current := 0 } :=
      ⟨rfl, h.live, h.seen, h.reactions⟩
    exact (exec_agrees undefined code hstart ⟨rfl, rfl⟩).2.1
  | turn token code =>
    have hstart : Agrees (w.installRider token) { l with current := token } := ⟨rfl, h.live, h.seen, h.reactions⟩
    exact (exec_agrees undefined code hstart ⟨rfl, rfl⟩).2.1
  | react i value =>
    dsimp only [step, Lexical.step]
    obtain ⟨hlen, hget⟩ := List.forall₂_iff_get.mp h.reactions
    cases hi : w.reactions[i]? with
    | none =>
      rw [List.getElem?_eq_none_iff.mpr (hlen ▸ List.getElem?_eq_none_iff.mp hi)]
      exact h
    | some r =>
      obtain ⟨hlt, hr⟩ := List.getElem?_eq_some_iff.mp hi
      rw [List.getElem?_eq_getElem (hlen ▸ hlt)]
      obtain ⟨hcped, hcode⟩ := hget i hlt (hlen ▸ hlt)
      rw [List.get_eq_getElem, List.get_eq_getElem, hr] at hcped hcode
      have hstart : Agrees { w with cped := r.cped, reactions := w.reactions.eraseIdx i }
          { l with reactions := l.reactions.eraseIdx i } := by
        refine ⟨h.current, h.live, h.seen, ?_⟩
        rw [List.eraseIdx_eq_take_drop_succ, List.eraseIdx_eq_take_drop_succ]
        exact List.rel_append (List.forall₂_take i h.reactions) (List.forall₂_drop (i + 1) h.reactions)
      dsimp only [Option.elim_some]
      rw [hcode]
      exact (exec_agrees undefined _ hstart hcped).2.1

end AsyncWorld

/-! ### Stores of a run -/

namespace GuestCode

variable {K V : Type}

/-- Every store the code puts, whatever it is told, is in `S`. -/
def Stores (S : V → Prop) : GuestCode K V → Prop
  | .finish _ | .killed => True
  | .run _ store callback rest => S store ∧ callback.Stores S ∧ ∀ thrown, (rest thrown).Stores S
  | .getStore _ rest => ∀ value, (rest value).Stores S
  | .native rest => rest.Stores S
  | .attach reaction rest => (∀ value, (reaction value).Stores S) ∧ rest.Stores S

theorem Stores.mono {S T : V → Prop} (hST : ∀ v, S v → T v) {code : GuestCode K V} (h : code.Stores S) :
    code.Stores T := by
  induction code with
  | finish _ => trivial
  | killed => trivial
  | run als store callback rest ihCallback ihRest =>
    exact ⟨hST store h.1, ihCallback h.2.1, fun thrown => ihRest thrown (h.2.2 thrown)⟩
  | getStore als rest ih => exact fun value => ih value (h value)
  | native rest ih => exact ih h
  | attach reaction rest ihReaction ih => exact ⟨fun value => ihReaction value (h.1 value), ih h.2⟩

end GuestCode

/-- The stores of set-up code are in `setup`, those of a run's turns in the run's own set. -/
def AsyncStep.Stores {K V : Type} (setup : V → Prop) (own : Nat → V → Prop) : AsyncStep K V → Prop
  | .setup code => code.Stores setup
  | .turn token code => code.Stores (own token)
  | .start _ | .conclude _ | .react _ _ | .idle => True

namespace Lexical

variable {K V : Type} [DecidableEq K] {setup : V → Prop} {own : Nat → V → Prop} {undefined : V}

/-- What code of the creator may see. -/
def allowed (setup : V → Prop) (own : Nat → V → Prop) : Option Nat → V → Prop
  | none => setup
  | some token => own token

structure Apart (undefined : V) (setup : V → Prop) (own : Nat → V → Prop) (w : Lexical K V) : Prop where
  seen : ∀ token als v, Glimpse.store (some token) als v ∈ w.seen → v = undefined ∨ own token v
  reactions : ∀ r ∈ w.reactions, (∀ value, (r.code value).Stores (allowed setup own r.creator)) ∧
    ∀ b ∈ r.bindings, allowed setup own r.creator b.2

theorem lookup_allowed {S : V → Prop} {bindings : List (K × V)} (h : ∀ b ∈ bindings, S b.2) (als : K) :
    lookup undefined bindings als = undefined ∨ S (lookup undefined bindings als) := by
  unfold lookup
  cases hfind : bindings.find? fun b => b.1 = als with
  | none => exact Or.inl rfl
  | some b => exact Or.inr (h b (List.mem_of_find?_eq_some hfind))

omit [DecidableEq K] in
theorem Apart.see {w : Lexical K V} (h : Apart undefined setup own w) {s : Glimpse K V}
    (hs : ∀ token als v, s = .store (some token) als v → v = undefined ∨ own token v) :
    Apart undefined setup own { w with seen := w.seen ++ [s] } := by
  refine ⟨fun token als v hv => ?_, h.reactions⟩
  rcases List.mem_append.mp hv with hv | hv
  · exact h.seen token als v hv
  · exact hs token als v (List.mem_singleton.mp hv).symm

theorem eval_apart (hsetup : ∀ token v, setup v → own token v) (code : GuestCode K V) {bindings : List (K × V)}
    {c : Option Nat} {w : Lexical K V} (hcode : code.Stores (allowed setup own c))
    (hbindings : ∀ b ∈ bindings, allowed setup own c b.2) (h : Apart undefined setup own w) :
    Apart undefined setup own (eval undefined code bindings c w).2.2 := by
  induction code generalizing bindings c w with
  | finish thrown => exact h
  | killed => exact h
  | run als store callback rest ihCallback ihRest =>
    -- code that becomes a run's may see what it saw as set-up code
    have hmore : ∀ v, allowed setup own c v → own (c.getD w.current) v := by
      cases c with
      | none => exact hsetup w.current
      | some token => exact fun v hv => hv
    have hinner : ∀ b ∈ (als, store) :: bindings, own (c.getD w.current) b.2 := by
      intro b hb
      obtain rfl | hb := List.mem_cons.mp hb
      · exact hmore _ hcode.1
      · exact hmore _ (hbindings b hb)
    have hcallback : Apart undefined setup own
        (eval undefined callback ((als, store) :: bindings) (some (c.getD w.current)) w).2.2 :=
      ihCallback (hcode.2.1.mono hmore) hinner h
    rw [eval]
    generalize eval undefined callback ((als, store) :: bindings) (some (c.getD w.current)) w = r
      at hcallback ⊢
    obtain ⟨completion, creator', w'⟩ := r
    cases completion with
    | killed => exact hcallback
    | finished thrown =>
      exact ihRest thrown ((hcode.2.2 thrown).mono hmore) (fun b hb => hmore _ (hbindings b hb)) hcallback
  | getStore als rest ih =>
    rw [eval]
    refine ih _ (hcode _) hbindings (h.see fun token als' v hv => ?_)
    cases hv
    exact lookup_allowed hbindings als
  | native rest ih =>
    rw [eval]
    refine ih hcode hbindings (h.see fun token als v hv => ?_)
    cases hv
  | attach reaction rest _ ih =>
    rw [eval]
    refine ih hcode.2 hbindings ⟨h.seen, fun r hr => ?_⟩
    rcases List.mem_append.mp hr with hr | hr
    · exact h.reactions r hr
    · rw [List.mem_singleton.mp hr]
      exact ⟨hcode.1, hbindings⟩

theorem step_apart (hsetup : ∀ token v, setup v → own token v) {w : Lexical K V}
    (h : Apart undefined setup own w) (s : AsyncStep K V) (hs : s.Stores setup own) :
    Apart undefined setup own (step undefined w s) := by
  have hnone : ∀ {creator : Option Nat}, ∀ b ∈ ([] : List (K × V)), allowed setup own creator b.2 :=
    fun _ hb => absurd hb List.not_mem_nil
  cases s with
  | start token => exact ⟨h.seen, h.reactions⟩
  | conclude token => exact ⟨h.seen, h.reactions⟩
  | idle => exact ⟨h.seen, h.reactions⟩
  | setup code =>
    have hstart : Apart undefined setup own { w with current := 0 } := ⟨h.seen, h.reactions⟩
    exact eval_apart (c := none) hsetup code hs hnone hstart
  | turn token code =>
    have hstart : Apart undefined setup own { w with current := token } := ⟨h.seen, h.reactions⟩
    exact eval_apart (c := some token) hsetup code hs hnone hstart
  | react i value =>
    dsimp only [step]
    cases hi : w.reactions[i]? with
    | none => exact h
    | some r =>
      obtain ⟨hcode, hbindings⟩ := h.reactions r (List.mem_of_getElem? hi)
      have hrest : Apart undefined setup own { w with reactions := w.reactions.eraseIdx i } :=
        ⟨h.seen, fun r' hr' => h.reactions r' (List.mem_of_mem_eraseIdx hr')⟩
      exact eval_apart hsetup (r.code value) (hcode value) hbindings hrest

end Lexical

/-! ### The results -/

section Results

variable {K V : Type} [DecidableEq K] (undefined : V)

theorem run_agrees (steps : List (AsyncStep K V)) {w : AsyncWorld K V} {l : Lexical K V} (h : AsyncWorld.Agrees w l) :
    AsyncWorld.Agrees (exec (AsyncWorld.step undefined) w steps) (exec (Lexical.step undefined) l steps) := by
  induction steps generalizing w l with
  | nil => exact h
  | cons s steps ih => exact ih (AsyncWorld.step_agrees undefined h s)

theorem run_apart {setup : V → Prop} {own : Nat → V → Prop} (hsetup : ∀ token v, setup v → own token v)
    {steps : List (AsyncStep K V)} (hsteps : ∀ s ∈ steps, s.Stores setup own) {w : Lexical K V}
    (h : Lexical.Apart undefined setup own w) :
    Lexical.Apart undefined setup own (exec (Lexical.step undefined) w steps) := by
  induction steps generalizing w with
  | nil => exact h
  | cons s steps ih =>
    have hstep := Lexical.step_apart hsetup h s (hsteps s List.mem_cons_self)
    exact ih (fun s' hs' => hsteps s' (List.mem_cons_of_mem s hs')) hstep

/-- Runs that share an instance do not see each other's stores. -/
theorem async_context_isolated (setup : V → Prop) (own : Nat → V → Prop)
    (hsetup : ∀ token v, setup v → own token v) (steps : List (AsyncStep K V))
    (hsteps : ∀ s ∈ steps, s.Stores setup own) (token : Nat) (als : K) (v : V)
    (hseen : Glimpse.store (some token) als v ∈ (exec (AsyncWorld.step undefined) .new steps).seen) :
    v = undefined ∨ own token v := by
  have hagrees := run_agrees undefined steps (w := .new) (l := .new) ⟨rfl, rfl, rfl, .nil⟩
  rw [hagrees.seen] at hseen
  have hnew : Lexical.Apart undefined setup own (.new : Lexical K V) :=
    ⟨fun _ _ _ h => absurd h List.not_mem_nil, fun _ h => absurd h List.not_mem_nil⟩
  exact (run_apart undefined hsetup hsteps hnew).seen token als v hseen

end Results

/-- Two runs put stores in one instance and await; each reads it in the other's turn. -/
def sharedStorage : List (AsyncStep Unit Nat) :=
  [.start 1, .start 2, .turn 1 (.run () 10 (.attach (fun _ => .getStore () fun _ => .finish false) (.finish false))
      fun _ => .finish false),
    .turn 2 (.run () 20 (.attach (fun _ => .getStore () fun _ => .finish false) (.finish false))
      fun _ => .finish false),
    .react 0 0, .turn 1 (.finish false), .react 0 0]

theorem sharedStorage_isolated :
    Glimpse.store (some 1) () 10 ∈ (exec (AsyncWorld.step 0) .new sharedStorage).seen ∧
      (10 = 0 ∨ 10 = 10 * 1) := by
  refine ⟨by decide, async_context_isolated 0 (fun _ => False) (fun token v => v = 10 * token) (fun _ _ h => h.elim)
    sharedStorage ?_ 1 () 10 (by decide)⟩
  simp [sharedStorage, AsyncStep.Stores, GuestCode.Stores]

end Iso4
