/-
The fields of an instance on its way into the sandbox.

The header list holds the entries of the instance, those of one name in their order; the body is
absent, the bytes that its stream yields, or a registered source that yields them.

* `SameHeaders`, `SameBody` — what the descriptor says of an instance;
* `describe_ok` — what `describe` returns.
-/
import Iso4.RehydrateRun

namespace Iso4

open Graph Js

/-- A flat list of header entries; entries of one name stand in their order. -/
def SameHeaders (entries : HostHeaders) (headers : List String) : Prop :=
  ∃ list : HostHeaders, headers = list.flatMap (fun entry => [entry.1, entry.2]) ∧
    ∀ name, list.filter (fun entry => entry.1 = name) = entries.filter fun entry => entry.1 = name

/-- The body of a descriptor yields what the body of the instance does. -/
def SameBody (streams : Option StreamSourceRegistry) : Option HostBody → MaterializedBody → Prop
  | none, body => body = .null
  | some source, .null => source.stream = none ∨ ∃ chunks, source.stream = some (chunks, none) ∧
      chunks.flatten = []
  | some source, .bytes data => ∃ chunks, source.stream = some (chunks, none) ∧ chunks.flatten = data
  | some source, .stream id => ∃ s registered, streams = some s ∧ (id, registered) ∈ s.sources ∧
      source.stream = some (registered.probed ++ registered.rest, registered.failure)

/-- A sandbox instance with the fields of a host instance. -/
def SameFields (streams : Option StreamSourceRegistry) (heap : List (JsObject JsValue)) (b : Nat)
    (i : HostInstance) : Prop :=
  ∃ headers body list, InstanceAt heap b list body i ∧
    heap[list]? = some (.array (headers.map fun s => some (str s)) []) ∧
    SameHeaders i.entries headers ∧ SameBody streams i.body body

/-! ### Header lists -/

theorem sameHeaders_flat {entries : HostHeaders} {headers : List String}
    (h : flatHeaders entries = .ok headers) :
    SameHeaders entries headers ∧ headers.length % 2 = 0 ∧
      headers.length / 2 ≤ maxHeaderEntries := by
  unfold flatHeaders at h
  dsimp only at h
  split at h
  · cases h
  · next hshort =>
    cases h
    set list := (entries.filter fun entry => entry.1 ≠ "set-cookie") ++
      entries.filter fun entry => entry.1 = "set-cookie" with hlist
    have hlen : ∀ list : HostHeaders,
        (list.flatMap fun entry => [entry.1, entry.2]).length = 2 * list.length := by
      intro list
      induction list with
      | nil => rfl
      | cons entry list ih =>
        rw [List.flatMap_cons, List.length_append, ih]
        simp only [List.length_cons, List.length_nil]
        omega
    refine ⟨⟨list, rfl, fun name => ?_⟩, ?_, ?_⟩
    · rw [hlist, List.filter_append, List.filter_filter, List.filter_filter]
      by_cases hname : name = "set-cookie"
      · -- Cookies are all among the last.
        subst hname
        have hnone : entries.filter (fun entry => decide (entry.1 = "set-cookie") &&
            decide (entry.1 ≠ "set-cookie")) = [] := by
          rw [List.filter_eq_nil_iff]
          intro entry _
          simp
        rw [hnone, List.nil_append]
        exact List.filter_congr fun entry _ => by simp
      · have hnone : entries.filter (fun entry => decide (entry.1 = name) &&
            decide (entry.1 = "set-cookie")) = [] := by
          rw [List.filter_eq_nil_iff]
          intro entry _
          simp only [Bool.and_eq_true, decide_eq_true_eq, not_and]
          exact fun heq => heq ▸ hname
        rw [hnone, List.append_nil]
        refine List.filter_congr fun entry _ => ?_
        by_cases heq : entry.1 = name
        · simp [heq, hname]
        · simp [heq]
    · rw [hlen]
      omega
    · rw [hlen]
      omega

/-! ### Bodies -/

theorem probe_ended {limit : Nat} {failure : Option String} {chunks read r : List (List UInt8)}
    (h : probe limit failure chunks read = .ended r) : failure = none ∧ r = read ++ chunks := by
  induction chunks generalizing read with
  | nil =>
    unfold probe at h
    cases failure with
    | some error => cases h
    | none =>
      cases h
      exact ⟨rfl, (List.append_nil _).symm⟩
  | cons chunk chunks ih =>
    unfold probe at h
    dsimp only at h
    split at h
    · cases h
    · obtain ⟨hfailure, hr⟩ := ih h
      exact ⟨hfailure, by rw [hr, List.append_assoc]; rfl⟩

theorem probe_outgrown {limit : Nat} {failure : Option String} {chunks read : List (List UInt8)}
    {source : BodySource} (h : probe limit failure chunks read = .outgrown source) :
    source.failure = failure ∧ source.probed ++ source.rest = read ++ chunks := by
  induction chunks generalizing read with
  | nil =>
    unfold probe at h
    cases failure with
    | some error => cases h
    | none => cases h
  | cons chunk chunks ih =>
    unfold probe at h
    dsimp only at h
    split at h
    · cases h
      exact ⟨rfl, by simp⟩
    · obtain ⟨hfailure, hsource⟩ := ih h
      exact ⟨hfailure, by rw [hsource, List.append_assoc]; rfl⟩

/-- What is sent of a body yields what the body does. -/
theorem materializeBody_ok {source : HostBody} {streams after : Option StreamSourceRegistry}
    {body : MaterializedBody} (h : materializeBody source streams = .ok (body, after)) :
    SameBody after (some source) body := by
  unfold materializeBody at h
  split at h
  · cases h
  split at h
  · next hnone =>
    cases h
    exact .inl hnone
  next chunks failure hstream =>
  dsimp only at h
  split at h
  · cases h
  · next read hprobe =>
    cases h
    obtain ⟨rfl, hread⟩ := probe_ended hprobe
    rw [List.nil_append] at hread
    subst hread
    split
    · next hempty => exact .inr ⟨read, hstream, hempty⟩
    · exact ⟨read, hstream, rfl⟩
  · next registered hprobe =>
    cases streams with
    | none => cases h
    | some s =>
      cases h
      obtain ⟨hfailure, hchunks⟩ := probe_outgrown hprobe
      rw [List.nil_append] at hchunks
      refine ⟨(s.register registered).2, registered, rfl, ?_, ?_⟩
      · exact List.mem_append_right _ (List.mem_singleton_self _)
      · rw [hstream, hchunks, hfailure]

/-- **What `describe` returns**: the fields of the instance. -/
theorem describe_ok {i : HostInstance} {streams after : Option StreamSourceRegistry}
    {headers : List String} {body : MaterializedBody}
    (h : describe i streams = .ok (headers, body, after)) :
    SameHeaders i.entries headers ∧ SameBody after i.body body ∧
      headers.length % 2 = 0 ∧ headers.length / 2 ≤ maxHeaderEntries := by
  unfold describe at h
  cases hflat : flatHeaders i.entries with
  | error message => rw [hflat] at h; cases h
  | ok flat =>
    rw [hflat] at h
    obtain ⟨hheaders, heven, hshort⟩ := sameHeaders_flat hflat
    cases hbody : i.body with
    | none =>
      simp only [bind, Except.bind, hbody] at h
      cases h
      exact ⟨hheaders, rfl, heven, hshort⟩
    | some source =>
      simp only [bind, Except.bind, hbody] at h
      cases hmaterialize : materializeBody source streams with
      | error message => rw [hmaterialize] at h; cases h
      | ok result =>
        rw [hmaterialize] at h
        cases h
        exact ⟨hheaders, materializeBody_ok hmaterialize, heven, hshort⟩

/-- A source that is registered stays. -/
theorem SameBody.mono {streams streams' : Option StreamSourceRegistry} {source : Option HostBody}
    {body : MaterializedBody} (h : SameBody streams source body)
    (hsources : ∀ s, streams = some s → ∃ s', streams' = some s' ∧ s.sources <+: s'.sources) :
    SameBody streams' source body := by
  cases source with
  | none => exact h
  | some source =>
    cases body with
    | null => exact h
    | bytes data => exact h
    | stream id =>
      obtain ⟨s, registered, hs, hmem, hstream⟩ := h
      obtain ⟨s', hs', hsub⟩ := hsources s hs
      exact ⟨s', registered, hs', hsub.subset hmem, hstream⟩

/-- What the cells of a copy hold of an instance can be received, when the ids of its streams are
those of the wire. -/
theorem Content.fits {streams : Option StreamSourceRegistry} {running : Bool} {i : HostInstance}
    {headers : List String} {body : MaterializedBody} (h : Content streams i headers body)
    (hrunning : streams.isSome = true → running = true)
    (hids : ∀ s, streams = some s → s.nextId ≤ 2 ^ 32) :
    Fits running i headers body ∧ SameHeaders i.entries headers ∧ SameBody streams i.body body := by
  obtain ⟨before, after, hdescribe, -, hsources⟩ := h
  obtain ⟨hheaders, hbody, heven, hshort⟩ := describe_ok hdescribe
  have hsame := hbody.mono hsources
  refine ⟨⟨heven, hshort, fun hnone => ?_, fun id hid => ?_⟩, hheaders, hsame⟩
  · rw [hnone] at hsame
    exact hsame
  · subst hid
    cases hsource : i.body with
    | none =>
      rw [hsource] at hsame
      cases hsame
    | some source =>
      rw [hsource] at hsame
      obtain ⟨s, registered, hs, hmem, -⟩ := hsame
      refine ⟨hrunning (by rw [hs]; rfl), Nat.lt_of_lt_of_le (s.below _ hmem) (hids s hs)⟩

end Iso4
