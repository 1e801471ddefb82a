/-
Codecs over bytes that always fit: a writer gives the bytes of every value, and
what it gives is shorter than `2 ^ 32`.

`Decodes bs r a` says that the reader `r`, in front of the bytes `bs`, ends with
`a` and leaves what follows.  The length of the whole payload bounds the length of
every field in it, so no field carries a bound of its own.

* `Decodes.bind`, `Decodes.times`, `Decodes.last` — fields one after the other,
  lists, the end of a payload;
* `Trims.bind`, `Closes.bind` — a reader leaves a suffix of what it had, and what
  the last bytes of a payload say of its value;
* `Canonical.times`, `Begins.append` — a reader that ends with `a` read the bytes
  of `a` and no others.
-/
import Iso4.Lib.Wire

namespace Wire

/-- `u64::to_be_bytes`. -/
def u64be (n : Nat) : List UInt8 := u32be (n / 4294967296) ++ u32be n

@[simp] theorem u64be_length (n : Nat) : (u64be n).length = 8 := rfl

variable {ε α β γ : Type}

theorem except_bind {x : Except ε α} {f : α → Except ε β} {b : β} (h : x >>= f = .ok b) :
    ∃ a, x = .ok a ∧ f a = .ok b := by
  cases x with
  | error e => cases h
  | ok a => exact ⟨a, rfl, h⟩

namespace Reader

/-- The next eight bytes, big-endian. -/
def u64 (short : ε) : Reader ε Nat := fun left =>
  match left with
  | a :: b :: c :: d :: e :: f :: g :: h :: left =>
    .ok (ofU32be a b c d * 4294967296 + ofU32be e f g h, left)
  | _ => .error short

theorem bind_ok {r : Reader ε α} {f : α → Reader ε β} {left rest : List UInt8} {b : β}
    (h : (r >>= f) left = .ok (b, rest)) :
    ∃ a mid, r left = .ok (a, mid) ∧ f a mid = .ok (b, rest) := by
  change (r left >>= fun p => f p.1 p.2) = _ at h
  cases hr : r left with
  | error e =>
    rw [hr] at h
    cases h
  | ok p =>
    rw [hr] at h
    exact ⟨p.1, p.2, rfl, h⟩

theorem map_ok {r : Reader ε α} {g : α → β} {left rest : List UInt8} {b : β}
    (h : (g <$> r) left = .ok (b, rest)) : ∃ a, r left = .ok (a, rest) ∧ g a = b := by
  change (r left >>= fun p => Except.ok (g p.1, p.2)) = _ at h
  cases hr : r left with
  | error e =>
    rw [hr] at h
    cases h
  | ok p =>
    rw [hr] at h
    obtain ⟨a, mid⟩ := p
    cases h
    exact ⟨a, rfl, rfl⟩

theorem run_ok {r : Reader ε α} {payload : List UInt8} {a : α} (h : r.run payload = .ok a) :
    ∃ rest, r payload = .ok (a, rest) := by
  change (·.1) <$> r payload = _ at h
  cases hr : r payload with
  | error e =>
    rw [hr] at h
    cases h
  | ok p =>
    rw [hr] at h
    cases h
    exact ⟨p.2, rfl⟩

end Reader

/-! ### Reading what was written -/

/-- In front of `bs`, short enough for a frame, the reader ends with `a` and leaves
what follows. -/
def Decodes (bs : List UInt8) (r : Reader ε α) (a : α) : Prop :=
  bs.length < 2 ^ 32 → ∀ left, r (bs ++ left) = .ok (a, left)

/-- In front of exactly `bs` the reader ends with `a`. -/
def DecodesAll (bs : List UInt8) (r : Reader ε α) (a : α) : Prop :=
  bs.length < 2 ^ 32 → r bs = .ok (a, [])

theorem decodes_pure (a : α) : Decodes [] (pure a : Reader ε α) a := fun _ _ => rfl

theorem Decodes.bind {bs cs : List UInt8} {r : Reader ε α} {a : α} {f : α → Reader ε β} {b : β}
    (h : Decodes bs r a) (hf : Decodes cs (f a) b) : Decodes (bs ++ cs) (r >>= f) b := by
  intro hlen left
  rw [List.length_append] at hlen
  show (r (bs ++ cs ++ left) >>= fun p => f p.1 p.2) = _
  rw [List.append_assoc, h (by omega)]
  exact hf (by omega) left

/-- The last step of a reader. -/
theorem Decodes.map {bs : List UInt8} {r : Reader ε α} {a : α} {f : α → Reader ε β} {b : β}
    (h : Decodes bs r a) (hf : ∀ left, f a left = .ok (b, left)) : Decodes bs (r >>= f) b := by
  intro hlen left
  show (r (bs ++ left) >>= fun p => f p.1 p.2) = _
  rw [h hlen]
  exact hf left

theorem Decodes.fmap {bs : List UInt8} {r : Reader ε α} {a : α} (g : α → β) (h : Decodes bs r a) :
    Decodes bs (g <$> r) (g a) := by
  intro hlen left
  show (r (bs ++ left) >>= fun p => Except.ok (g p.1, p.2)) = _
  rw [h hlen]
  rfl

theorem Decodes.bind_all {bs cs : List UInt8} {r : Reader ε α} {a : α} {f : α → Reader ε β} {b : β}
    (h : Decodes bs r a) (hf : DecodesAll cs (f a) b) : DecodesAll (bs ++ cs) (r >>= f) b := by
  intro hlen
  rw [List.length_append] at hlen
  show (r (bs ++ cs) >>= fun p => f p.1 p.2) = _
  rw [h (by omega)]
  exact hf (by omega)

/-- The last field, and what the reader does once nothing is left. -/
theorem Decodes.last {bs : List UInt8} {r : Reader ε α} {a : α} {f : α → Reader ε β} {b : β}
    (h : Decodes bs r a) (hf : f a [] = .ok (b, [])) : DecodesAll bs (r >>= f) b := by
  intro hlen
  have hr := h hlen []
  rw [List.append_nil] at hr
  show (r bs >>= fun p => f p.1 p.2) = _
  rw [hr]
  exact hf

theorem DecodesAll.run {bs : List UInt8} {r : Reader ε α} {a : α} (h : DecodesAll bs r a)
    (hlen : bs.length < 2 ^ 32) : r.run bs = .ok a := by
  show (·.1) <$> r bs = _
  rw [h hlen]
  rfl

theorem decodes_u8 (short : ε) (b : UInt8) : Decodes [b] (Reader.u8 short) b := fun _ _ => rfl

theorem decodes_u32 (short : ε) {n : Nat} (h : n < 2 ^ 32) :
    Decodes (u32be n) (Reader.u32 short) n := by
  intro _ left
  show Except.ok (ofU32be _ _ _ _, left) = _
  rw [ofU32be_u32be h]

theorem decodes_u64 (short : ε) {n : Nat} (h : n < 2 ^ 64) :
    Decodes (u64be n) (Reader.u64 short) n := by
  intro _ left
  have hlow : u32be n = u32be (n % 2 ^ 32) := (u32be_mod n).symm
  have hhigh : n / 4294967296 < 2 ^ 32 := by omega
  unfold u64be
  rw [hlow]
  show Except.ok (ofU32be _ _ _ _ * 4294967296 + ofU32be _ _ _ _, left) = _
  rw [ofU32be_u32be hhigh, ofU32be_u32be (Nat.mod_lt n (Nat.two_pow_pos 32))]
  congr 2
  omega

/-- Bytes behind their length; the length fits because the payload does. -/
theorem Decodes.block {bs : List UInt8} {r : Reader ε Nat} {f : Nat → Reader ε β} {b : β}
    (hlen : bs.length < 2 ^ 32 → Decodes (u32be bs.length) r bs.length)
    (hf : Decodes bs (f bs.length) b) : Decodes (u32be bs.length ++ bs) (r >>= f) b := by
  intro hall
  have hbs : bs.length < 2 ^ 32 := by
    rw [List.length_append] at hall
    omega
  exact (hlen hbs).bind hf hall

/-- Entries one after the other; `conv` is what the reader makes of an entry. -/
theorem Decodes.times {r : Reader ε α} {write : γ → List UInt8} {conv : γ → α} {cs : List γ}
    (h : ∀ c ∈ cs, Decodes (write c) r (conv c)) :
    Decodes (cs.flatMap write) (Reader.times r cs.length) (cs.map conv) := by
  induction cs with
  | nil => exact decodes_pure []
  | cons c cs ih =>
    have hrest := ih fun d hd => h d (List.mem_cons_of_mem _ hd)
    rw [List.flatMap_cons]
    exact (h c List.mem_cons_self).bind (hrest.map fun _ => rfl)

theorem length_le_flatMap {write : γ → List UInt8} (h : ∀ c, 0 < (write c).length) (cs : List γ) :
    cs.length ≤ (cs.flatMap write).length := by
  induction cs with
  | nil => exact Nat.le_refl _
  | cons c cs ih =>
    have hc := h c
    rw [List.flatMap_cons, List.length_append, List.length_cons]
    omega

/-! ### Fields with bounds of their own -/

/-- In front of `bs` the reader ends with `a` and leaves what follows. -/
def Takes (bs : List UInt8) (r : Reader ε α) (a : α) : Prop := ∀ left, r (bs ++ left) = .ok (a, left)

theorem Decodes.takes {bs : List UInt8} {r : Reader ε α} {a : α} (h : Decodes bs r a)
    (hlen : bs.length < 2 ^ 32) : Takes bs r a := h hlen

theorem Takes.bind {bs cs : List UInt8} {r : Reader ε α} {a : α} {f : α → Reader ε β} {b : β}
    (h : Takes bs r a) (hf : Takes cs (f a) b) : Takes (bs ++ cs) (r >>= f) b := by
  intro left
  show (r (bs ++ cs ++ left) >>= fun p => f p.1 p.2) = _
  rw [List.append_assoc, h]
  exact hf left

theorem Takes.map {bs : List UInt8} {r : Reader ε α} {a : α} {f : α → Reader ε β} {b : β}
    (h : Takes bs r a) (hf : ∀ left, f a left = .ok (b, left)) : Takes bs (r >>= f) b := by
  intro left
  show (r (bs ++ left) >>= fun p => f p.1 p.2) = _
  rw [h]
  exact hf left

/-- A reader goes on behind what it took. -/
theorem Takes.then {bs : List UInt8} {r : Reader ε α} {a : α} (h : Takes bs r a) (f : α → Reader ε β)
    (left : List UInt8) : (r >>= f) (bs ++ left) = f a left := by
  show (r (bs ++ left) >>= fun p => f p.1 p.2) = _
  rw [h]
  rfl

theorem Takes.times {r : Reader ε α} {write : γ → List UInt8} {conv : γ → α} {cs : List γ}
    (h : ∀ c ∈ cs, Takes (write c) r (conv c)) :
    Takes (cs.flatMap write) (Reader.times r cs.length) (cs.map conv) := by
  induction cs with
  | nil => exact fun _ => rfl
  | cons c cs ih =>
    have hrest := ih fun d hd => h d (List.mem_cons_of_mem _ hd)
    rw [List.flatMap_cons]
    exact (h c List.mem_cons_self).bind (hrest.map fun _ => rfl)

/-- What was written can be told apart. -/
theorem Takes.unique {bs cs : List UInt8} {r : Reader ε α} {a b : α} (ha : Takes bs r a)
    (hb : Takes cs r b) (h : bs = cs) : a = b := by
  have heq := (ha []).symm.trans (h ▸ hb [])
  cases heq
  rfl

/-! ### What a reader leaves -/

/-- The reader takes bytes off the front. -/
def Trims (r : Reader ε α) : Prop := ∀ left a rest, r left = .ok (a, rest) → rest <:+ left

theorem trims_pure (a : α) : Trims (pure a : Reader ε α) := by
  intro left b rest h
  cases h
  exact List.suffix_refl _

theorem trims_fail (e : ε) : Trims (Reader.fail e : Reader ε α) := by
  intro left b rest h
  cases h

theorem Trims.bind {r : Reader ε α} {f : α → Reader ε β} (h : Trims r) (hf : ∀ a, Trims (f a)) :
    Trims (r >>= f) := by
  intro left b rest hb
  obtain ⟨a, mid, hr, hs⟩ := Reader.bind_ok hb
  exact (hf a mid b rest hs).trans (h left a mid hr)

theorem Trims.ite {c : Prop} [Decidable c] {r s : Reader ε α} (hr : Trims r) (hs : Trims s) :
    Trims (if c then r else s) := by
  split
  · exact hr
  · exact hs

theorem trims_u8 (short : ε) : Trims (Reader.u8 short) := by
  intro left a rest h
  match left, h with
  | b :: left, h =>
    cases h
    exact List.suffix_cons _ _

theorem u32_ok {short : ε} {left rest : List UInt8} {n : Nat}
    (h : Reader.u32 short left = .ok (n, rest)) :
    ∃ a b c d, left = a :: b :: c :: d :: rest ∧ n = ofU32be a b c d := by
  unfold Reader.u32 at h
  split at h
  · cases h
    exact ⟨_, _, _, _, rfl, rfl⟩
  · cases h

theorem trims_u32 (short : ε) : Trims (Reader.u32 short) := by
  intro left n rest h
  obtain ⟨a, b, c, d, rfl, -⟩ := u32_ok h
  exact ⟨[a, b, c, d], rfl⟩

theorem trims_u64 (short : ε) : Trims (Reader.u64 short) := by
  intro left n rest h
  unfold Reader.u64 at h
  split at h
  · next a b c d e f g i left =>
    cases h
    exact ⟨[a, b, c, d, e, f, g, i], rfl⟩
  · cases h

theorem Trims.times {r : Reader ε α} (h : Trims r) (n : Nat) : Trims (Reader.times r n) := by
  induction n with
  | zero => exact trims_pure []
  | succ n ih => exact h.bind fun a => ih.bind fun as => trims_pure (a :: as)

theorem trims_lift (x : Except ε α) : Trims (StateT.lift x : Reader ε α) := by
  intro left a rest h
  change (x >>= fun a => Except.ok (a, left)) = _ at h
  cases x with
  | error e => cases h
  | ok b =>
    cases h
    exact List.suffix_refl _

theorem Trims.fmap {r : Reader ε α} (g : α → β) (h : Trims r) : Trims (g <$> r) := by
  intro left b rest hb
  obtain ⟨a, hr, -⟩ := Reader.map_ok hb
  exact h left a rest hr

/-- The values a reader ends with are as `P` says. -/
def Yields (r : Reader ε α) (P : α → Prop) : Prop := ∀ left a rest, r left = .ok (a, rest) → P a

theorem yields_pure {P : α → Prop} {a : α} (h : P a) : Yields (pure a : Reader ε α) P := by
  intro left b rest hb
  cases hb
  exact h

theorem yields_fail {P : α → Prop} (e : ε) : Yields (Reader.fail e : Reader ε α) P := by
  intro left b rest hb
  cases hb

theorem Yields.bind {r : Reader ε α} {f : α → Reader ε β} {P : β → Prop} (hf : ∀ a, Yields (f a) P) :
    Yields (r >>= f) P := by
  intro left b rest hb
  obtain ⟨a, mid, -, hs⟩ := Reader.bind_ok hb
  exact hf a mid b rest hs

theorem Yields.ite {c : Prop} [Decidable c] {r s : Reader ε α} {P : α → Prop} (hr : Yields r P)
    (hs : Yields s P) : Yields (if c then r else s) P := by
  split
  · exact hr
  · exact hs

/-- A reader that ends at the end of the payload: its value and the last bytes of
the payload are as `P` says. -/
def Closes (r : Reader ε α) (P : α → List UInt8 → Prop) : Prop :=
  ∀ left a rest, r left = .ok (a, rest) → ∃ bs, bs <:+ left ∧ P a bs

theorem Closes.bind {r : Reader ε α} {f : α → Reader ε β} {P : β → List UInt8 → Prop} (h : Trims r)
    (hf : ∀ a, Closes (f a) P) : Closes (r >>= f) P := by
  intro left b rest hb
  obtain ⟨a, mid, hr, hs⟩ := Reader.bind_ok hb
  obtain ⟨bs, hbs, hP⟩ := hf a mid b rest hs
  exact ⟨bs, hbs.trans (h left a mid hr), hP⟩

/-! ### Reading nothing but what is written -/

theorem u32be_ofU32be (a b c d : UInt8) : u32be (ofU32be a b c d) = [a, b, c, d] := by
  have ha := a.toNat_lt
  have hb := b.toNat_lt
  have hc := c.toNat_lt
  have hd := d.toNat_lt
  have byte : ∀ (n : Nat) (x : UInt8), n % 256 = x.toNat → UInt8.ofNat n = x := by
    intro n x h
    exact UInt8.toNat_inj.mp (by simpa using h)
  unfold u32be ofU32be
  rw [byte _ a (by omega), byte _ b (by omega), byte _ c (by omega), byte _ d (by omega)]

theorem ofU32be_lt (a b c d : UInt8) : ofU32be a b c d < 2 ^ 32 := by
  have ha := a.toNat_lt
  have hb := b.toNat_lt
  have hc := c.toNat_lt
  have hd := d.toNat_lt
  unfold ofU32be
  omega

theorem utf8_of_ofUtf8 {bytes : List UInt8} {s : String} (h : ofUtf8 bytes = some s) :
    utf8 s = bytes := by
  unfold ofUtf8 String.fromUTF8? at h
  split at h
  · cases h
    rfl
  · cases h

/-- What is left begins with the bytes of the writer, and `rest` follows. -/
def Begins (w : Written) (left rest : List UInt8) : Prop := ∃ bs, w = some bs ∧ left = bs ++ rest

theorem Begins.nil (left : List UInt8) : Begins (Written.bytes []) left left := ⟨[], rfl, rfl⟩

theorem Begins.append {v w : Written} {left mid rest : List UInt8} (hv : Begins v left mid)
    (hw : Begins w mid rest) : Begins (v ++ w) left rest := by
  obtain ⟨bs, rfl, rfl⟩ := hv
  obtain ⟨cs, rfl, rfl⟩ := hw
  exact ⟨bs ++ cs, rfl, (List.append_assoc bs cs rest).symm⟩

/-- A whole payload. -/
theorem Begins.all {w : Written} {left : List UInt8} (h : Begins w left []) : w = some left := by
  obtain ⟨bs, hw, rfl⟩ := h
  rw [List.append_nil]
  exact hw

/-- The reader ends with a value only in front of the bytes of that value. -/
def Canonical (write : α → Written) (r : Reader ε α) : Prop :=
  ∀ left a rest, r left = .ok (a, rest) → Begins (write a) left rest

theorem canonical_u8 (short : ε) : Canonical (fun b => Written.bytes [b]) (Reader.u8 short) := by
  intro left b rest h
  match left, h with
  | c :: left, h =>
    cases h
    exact ⟨[b], rfl, rfl⟩

theorem canonical_u32 (short : ε) : Canonical writeU32 (Reader.u32 short) := by
  intro left n rest h
  obtain ⟨a, b, c, d, rfl, rfl⟩ := u32_ok h
  refine ⟨[a, b, c, d], ?_, rfl⟩
  rw [writeU32_fits (ofU32be_lt a b c d), u32be_ofU32be]

theorem take_ok {short : ε} {n : Nat} {left bytes rest : List UInt8}
    (h : Reader.take short n left = .ok (bytes, rest)) : left = bytes ++ rest ∧ bytes.length = n := by
  unfold Reader.take at h
  split at h
  · cases h
  · next hlen =>
    cases h
    exact ⟨(List.take_append_drop n left).symm, List.length_take_of_le (Nat.not_lt.mp hlen)⟩

theorem Canonical.times {write : α → Written} {r : Reader ε α} (h : Canonical write r) (n : Nat) :
    ∀ left as rest, Reader.times r n left = .ok (as, rest) →
      as.length = n ∧ Begins (Written.concat (as.map write)) left rest := by
  induction n with
  | zero =>
    intro left as rest has
    cases has
    exact ⟨rfl, Begins.nil left⟩
  | succ n ih =>
    intro left as rest has
    obtain ⟨a, mid, ha, has⟩ := Reader.bind_ok has
    obtain ⟨as', last, has', heq⟩ := Reader.bind_ok has
    cases heq
    obtain ⟨hlen, hbegins⟩ := ih mid as' _ has'
    exact ⟨congrArg (· + 1) hlen, (h left a mid ha).append hbegins⟩

end Wire
