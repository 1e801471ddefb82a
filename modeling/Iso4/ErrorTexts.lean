/-
The three clamps on the text of an error: `capped_text_lossy` of `crates/core/src/v8/exceptions.rs`,
the cause kept for a broken prefix, and the encoder of a result.

* `ErrorTexts.cappedTextLossy` — the text of a guest, cut with room left for its marker;
* `ErrorTexts.received` — the text the host reads, of a fresh failure and of a broken prefix;
* `ErrorTexts.clampErrorText_gt` — a text that is cut is over its bound again, marker and all;
* `ErrorTexts.clampErrorText_twice` — the second cut replaces the length that the first one states;
* `ErrorTexts.clamps_iff` — bound, idempotence and a single true marker hold of the texts within
  the bound and of the texts of a guest, and of no others.
-/
import Iso4.PrefixStore
import Iso4.CompletionDelivery
import Iso4.RuntimeRoundTrip
import Iso4.Lib.Utf16

namespace Iso4

open Wire

namespace ErrorTexts

open Ipc Delivery

/-! ### The clamps -/

/-- A string of V8: its `length` is a `usize`. -/
structure V8Text where
  units : List UInt16
  length_lt : units.length < 2 ^ 64

/-- `MAX_UNITS`. -/
def maxUnits : Nat := 64 * 1024

/-- `ERROR_TEXT_BYTES`. -/
def errorTextBytes : Nat := maxErrorTextBytes - 128

/-- The units copied out of a long string. -/
def copiedUnits (text : V8Text) : List UInt16 :=
  let units := text.units.take maxUnits
  -- A cut inside a surrogate pair would decode to U+FFFD.
  if units.getLast?.any Utf16.isHigh then units.dropLast else units

def unitsMarker (len : Nat) : String :=
  "… [truncated by iso4: " ++ toString len ++ " UTF-16 units total]"

def bytesMarker (len : Nat) : String := "… [truncated by iso4: " ++ toString len ++ " bytes total]"

/-- `out`, before it is cut: an unpaired surrogate is U+FFFD. -/
def lossyText (text : V8Text) : List Char :=
  Utf16.scalars (if text.units.length ≤ maxUnits then text.units else copiedUnits text)

def cappedTextLossy (text : V8Text) (maxBytes : Nat) : String :=
  let len := text.units.length
  let out := lossyText text
  if len ≤ maxUnits ∧ (utf8 (String.ofList out)).length ≤ maxBytes then String.ofList out
  else String.ofList (charsWithin maxBytes out) ++ unitsMarker len

/-- Where the text of an error comes from: a thrown value, read through the cap, or the runtime,
whose messages name specifiers and paths of any length. -/
inductive Source where
  | guest (text : V8Text)
  | engine (text : String)

namespace Source

/-- The text before any clamp. -/
def whole : Source → String
  | guest text => String.ofList (Utf16.scalars text.units)
  | engine text => text

/-- The text of the `RunError`. -/
def text : Source → String
  | guest text => cappedTextLossy text errorTextBytes
  | engine text => text

/-- The marker that states the length of the whole text. -/
def marker : Source → String
  | guest text => unitsMarker text.units.length
  | engine text => bytesMarker (utf8 text).length

/-- What needs no cut after the cap. -/
def Short : Source → Prop
  | guest _ => True
  | engine text => (utf8 text).length ≤ maxErrorTextBytes

end Source

/-- The text the host reads: the encoder clamps it, and for the cause of a broken prefix it was
clamped before. -/
def received (stored : Bool) (text : String) : String :=
  clampErrorText (if stored then clampErrorText text else text)

/-- A message and a stack reach the host as `received` says. -/
theorem text_received (raw : RunErrorPayload) :
    raw.text.message = received false raw.message ∧
      raw.text.stack = raw.stack.map (received false) ∧
      (brokenCause raw).text.message = received true raw.message ∧
      (brokenCause raw).text.stack = raw.stack.map (received true) := by
  refine ⟨rfl, rfl, rfl, ?_⟩
  show (raw.stack.map clampErrorText).map clampErrorText = _
  rw [Option.map_map]
  rfl

/-- The text is within the bound, and is either the whole of its source or a beginning of it with
the one marker that is true. -/
def Faithful (s : Source) (r : String) : Prop :=
  (utf8 r).length ≤ maxErrorTextBytes ∧
    (r = s.whole ∨ ∃ cs, cs <+: s.whole.toList ∧ r = String.ofList cs ++ s.marker)

/-! ### One clamp and two -/

theorem utf8_ofList_length (cs : List Char) :
    (utf8 (String.ofList cs)).length = String.utf8Len cs := by
  rw [utf8_length, String.utf8ByteSize_ofList]

theorem bytesMarker_length (n : Nat) :
    (utf8 (bytesMarker n)).length = 37 + (utf8 (toString n)).length := by
  have hopen : (utf8 "… [truncated by iso4: ").length = 24 := by decide
  have hclose : (utf8 " bytes total]").length = 13 := by decide
  show (utf8 ("… [truncated by iso4: " ++ toString n ++ " bytes total]")).length = _
  simp only [utf8_append, List.length_append, hopen, hclose]
  omega

theorem unitsMarker_length (n : Nat) :
    (utf8 (unitsMarker n)).length = 44 + (utf8 (toString n)).length := by
  have hopen : (utf8 "… [truncated by iso4: ").length = 24 := by decide
  have hclose : (utf8 " UTF-16 units total]").length = 20 := by decide
  show (utf8 ("… [truncated by iso4: " ++ toString n ++ " UTF-16 units total]")).length = _
  simp only [utf8_append, List.length_append, hopen, hclose]
  omega

theorem clampErrorText_of_gt {text : String} (h : maxErrorTextBytes < (utf8 text).length) :
    clampErrorText text = String.ofList (charsWithin maxErrorTextBytes text.toList) ++
      bytesMarker (utf8 text).length := by
  rw [clampErrorText, if_neg (Nat.not_le.mpr h)]
  show _ = _ ++ ("… [truncated by iso4: " ++ toString (utf8 text).length ++ " bytes total]")
  simp only [String.append_assoc]

/-- A cut goes back over three bytes at most. -/
theorem le_charsWithin {room : Nat} {cs : List Char} (h : room < String.utf8Len cs) :
    room < String.utf8Len (charsWithin room cs) + 4 := by
  induction cs generalizing room with
  | nil => simp at h
  | cons c cs ih =>
    rw [String.utf8Len_cons] at h
    unfold charsWithin
    split
    · have hrest : room - c.utf8Size < String.utf8Len cs := by omega
      have := ih hrest
      rw [String.utf8Len_cons]
      omega
    · have := c.utf8Size_le_four
      omega

/-- A text that is cut is over the bound again, with its marker. -/
theorem clampErrorText_gt {text : String} (h : maxErrorTextBytes < (utf8 text).length) :
    maxErrorTextBytes < (utf8 (clampErrorText text)).length := by
  have hkept : maxErrorTextBytes <
      String.utf8Len (charsWithin maxErrorTextBytes text.toList) + 4 := by
    refine le_charsWithin ?_
    rwa [← utf8_ofList_length, String.ofList_toList]
  rw [clampErrorText_of_gt h, utf8_append, List.length_append, utf8_ofList_length,
    bytesMarker_length]
  omega

theorem clampErrorText_le_iff (text : String) :
    (utf8 (clampErrorText text)).length ≤ maxErrorTextBytes ↔
      (utf8 text).length ≤ maxErrorTextBytes := by
  constructor
  · intro h
    by_contra hgt
    have := clampErrorText_gt (Nat.not_le.mp hgt)
    omega
  · intro h
    rwa [clampErrorText_of_le h]

theorem received_le_iff (stored : Bool) (text : String) :
    (utf8 (received stored text)).length ≤ maxErrorTextBytes ↔
      (utf8 text).length ≤ maxErrorTextBytes := by
  cases stored with
  | false => exact clampErrorText_le_iff text
  | true => exact (clampErrorText_le_iff _).trans (clampErrorText_le_iff text)

theorem received_of_le (stored : Bool) {text : String}
    (h : (utf8 text).length ≤ maxErrorTextBytes) : received stored text = text := by
  cases stored with
  | false => exact clampErrorText_of_le h
  | true =>
    show clampErrorText (clampErrorText text) = text
    rw [clampErrorText_of_le h, clampErrorText_of_le h]

/-! ### The text of a guest -/

theorem errorTextBytes_eq : errorTextBytes + 128 = maxErrorTextBytes := rfl

/-- The cap leaves room for its marker. -/
theorem cappedTextLossy_le (text : V8Text) :
    (utf8 (cappedTextLossy text errorTextBytes)).length ≤ maxErrorTextBytes := by
  have hroom := errorTextBytes_eq
  unfold cappedTextLossy
  dsimp only
  split
  · next h =>
    have hle := h.2
    omega
  · have hkept := utf8Len_charsWithin errorTextBytes (lossyText text)
    have hnumber := utf8_toString_le (Nat.lt_trans text.length_lt (by decide))
    rw [utf8_append, List.length_append, utf8_ofList_length, unitsMarker_length]
    omega

/-- What is copied begins the text: the cut is never inside a surrogate pair. -/
theorem scalars_copiedUnits_prefix (text : V8Text) :
    Utf16.scalars (copiedUnits text) <+: Utf16.scalars text.units := by
  have htake := List.take_append_drop maxUnits text.units
  unfold copiedUnits
  dsimp only
  split
  · next h =>
    obtain ⟨u, hlast, hhigh⟩ := (Option.any_eq_true _ _).mp h
    have hunits : text.units = (text.units.take maxUnits).dropLast ++
        (u :: text.units.drop maxUnits) := by
      rw [List.append_cons, List.dropLast_append_getLast? u hlast, htake]
    refine ⟨Utf16.scalars (u :: text.units.drop maxUnits), ?_⟩
    conv_rhs => rw [hunits]
    rw [Utf16.scalars_append_cons (Utf16.isLow_of_high hhigh)]
  · next h =>
    refine ⟨Utf16.scalars (text.units.drop maxUnits), ?_⟩
    conv_rhs => rw [← htake]
    refine (Utf16.scalars_append fun u hu v _ => ?_).symm
    have hne : Utf16.isHigh u = false := by
      rw [Bool.not_eq_true, Option.any_eq_false] at h
      simpa using h u hu
    rw [hne, Bool.false_and]

theorem lossyText_prefix (text : V8Text) : lossyText text <+: Utf16.scalars text.units := by
  unfold lossyText
  split
  · exact List.prefix_refl _
  · exact scalars_copiedUnits_prefix text

/-- A guest's text is whole, or cut with a marker that states how long it was. -/
theorem cappedTextLossy_faithful (text : V8Text) :
    Faithful (.guest text) (cappedTextLossy text errorTextBytes) := by
  refine ⟨cappedTextLossy_le text, ?_⟩
  unfold cappedTextLossy
  dsimp only
  split
  · next h =>
    refine .inl ?_
    rw [lossyText, if_pos h.1]
    rfl
  · refine .inr ⟨charsWithin errorTextBytes (lossyText text), ?_, rfl⟩
    show _ <+: (String.ofList (Utf16.scalars text.units)).toList
    rw [String.toList_ofList]
    have hkept := charsWithin_prefix errorTextBytes (lossyText text)
    have hout := lossyText_prefix text
    exact hkept.trans hout

/-! ### The second marker -/

theorem charsWithin_append {room : Nat} {as : List Char} (h : String.utf8Len as = room) (b : Char)
    (bs : List Char) : charsWithin room (as ++ b :: bs) = as := by
  induction as generalizing room with
  | nil =>
    have hb := b.utf8Size_pos
    simp only [String.utf8Len_nil] at h
    rw [List.nil_append, charsWithin, if_neg (by omega)]
  | cons a as ih =>
    rw [String.utf8Len_cons] at h
    rw [List.cons_append, charsWithin, if_pos (by omega), ih (by omega)]

/-- A text whose cut falls between characters. -/
theorem clampErrorText_append {kept rest : String} (hkept : (utf8 kept).length = maxErrorTextBytes)
    (hrest : rest ≠ "") :
    clampErrorText (kept ++ rest) =
      kept ++ bytesMarker (maxErrorTextBytes + (utf8 rest).length) := by
  obtain ⟨b, bs, hbs⟩ : ∃ b bs, rest.toList = b :: bs := by
    cases hlist : rest.toList with
    | nil => exact absurd (String.toList_eq_nil_iff.mp hlist) hrest
    | cons b bs => exact ⟨b, bs, rfl⟩
  have hlen : (utf8 (kept ++ rest)).length = maxErrorTextBytes + (utf8 rest).length := by
    rw [utf8_append, List.length_append, hkept]
  have hpos : 0 < (utf8 rest).length := by
    have hb := b.utf8Size_pos
    rw [← String.ofList_toList (s := rest), utf8_ofList_length, hbs, String.utf8Len_cons]
    omega
  have hcut : charsWithin maxErrorTextBytes (kept ++ rest).toList = kept.toList := by
    rw [String.toList_append, hbs]
    refine charsWithin_append ?_ b bs
    rw [← utf8_ofList_length, String.ofList_toList, hkept]
  rw [clampErrorText_of_gt (by omega), hcut, String.ofList_toList, hlen]

/-- The second cut takes the first marker away, and its own states the length of what the first
one left. -/
theorem clampErrorText_twice {kept rest : String} (hkept : (utf8 kept).length = maxErrorTextBytes)
    (hrest : rest ≠ "") :
    clampErrorText (clampErrorText (kept ++ rest)) =
      kept ++ bytesMarker (maxErrorTextBytes +
        (utf8 (bytesMarker (maxErrorTextBytes + (utf8 rest).length))).length) := by
  rw [clampErrorText_append hkept hrest, clampErrorText_append hkept]
  intro hempty
  have hlen := bytesMarker_length (maxErrorTextBytes + (utf8 rest).length)
  rw [hempty] at hlen
  have hnil : (utf8 "").length = 0 := by decide
  omega

/-! ### Which texts keep to it -/

theorem ofUtf8_clampErrorText (text : String) :
    ofUtf8 (utf8 (clampErrorText text)) = some (clampErrorText text) := ofUtf8_utf8 _

/-- A cut text is over the bound, so nothing further down the line leaves it alone; what needs no
cut passes every clamp as it is. -/
theorem clamps_iff (text : String) (stored : Bool) (s : Source) :
    ((ofUtf8 (utf8 (clampErrorText text))).isSome ∧
        (utf8 (clampErrorText text)).length ≤ maxErrorTextBytes ∧
        clampErrorText (clampErrorText text) = clampErrorText text ↔
      (utf8 text).length ≤ maxErrorTextBytes) ∧
    (Faithful s (received stored s.text) ↔ s.Short) := by
  constructor
  · constructor
    · rintro ⟨-, hle, -⟩
      exact (clampErrorText_le_iff text).mp hle
    · intro h
      refine ⟨by rw [ofUtf8_clampErrorText]; rfl, (clampErrorText_le_iff text).mpr h, ?_⟩
      exact clampErrorText_of_le ((clampErrorText_le_iff text).mpr h)
  · cases s with
    | guest t =>
      refine ⟨fun _ => trivial, fun _ => ?_⟩
      rw [show (Source.guest t).text = cappedTextLossy t errorTextBytes from rfl,
        received_of_le stored (cappedTextLossy_le t)]
      exact cappedTextLossy_faithful t
    | engine t =>
      constructor
      · intro h
        exact (received_le_iff stored t).mp h.1
      · intro h
        show Faithful _ (received stored t)
        rw [received_of_le stored h]
        exact ⟨h, .inl rfl⟩

/-- The message of an import of a module that is not there. -/
def cannotFindModule (specifier : String) : String := "Cannot find module '" ++ specifier ++ "'"

theorem utf8_replicate_length (n : Nat) :
    (utf8 (String.ofList (List.replicate n 'a'))).length = n := by
  rw [utf8_ofList_length]
  induction n with
  | zero => rfl
  | succ n ih =>
    rw [List.replicate_succ, String.utf8Len_cons, ih]
    rfl

theorem cannotFindModule_eq (n m : Nat) :
    cannotFindModule (String.ofList (List.replicate (n + m) 'a')) =
      ("Cannot find module '" ++ String.ofList (List.replicate n 'a')) ++
        (String.ofList (List.replicate m 'a') ++ "'") := by
  show "Cannot find module '" ++ String.ofList (List.replicate (n + m) 'a') ++ "'" = _
  rw [← List.replicate_append_replicate, String.ofList_append]
  simp only [String.append_assoc]

/-- A prefix that imports a specifier of 65,536 letters: the message has 65,557 bytes, the text kept
for the broken prefix 65,578, and it is these that the host is told of. -/
theorem cannotFindModule_not_faithful :
    maxErrorTextBytes < (utf8 (clampErrorText (cannotFindModule
        (String.ofList (List.replicate 65536 'a'))))).length ∧
      clampErrorText (clampErrorText (cannotFindModule
          (String.ofList (List.replicate 65536 'a')))) ≠
        clampErrorText (cannotFindModule (String.ofList (List.replicate 65536 'a'))) ∧
      ¬ Faithful (.engine (cannotFindModule (String.ofList (List.replicate 65536 'a'))))
        (received true (cannotFindModule (String.ofList (List.replicate 65536 'a')))) := by
  rw [show (65536 : Nat) = 65516 + 20 from rfl, cannotFindModule_eq]
  generalize hkept : "Cannot find module '" ++ String.ofList (List.replicate 65516 'a') = kept
  generalize hrest : String.ofList (List.replicate 20 'a') ++ "'" = rest
  have hkeptLen : (utf8 kept).length = maxErrorTextBytes := by
    have hopen : (utf8 "Cannot find module '").length = 20 := by decide
    rw [← hkept, utf8_append, List.length_append, hopen, utf8_replicate_length]
    rfl
  have hrestLen : (utf8 rest).length = 21 := by
    have hclose : (utf8 "'").length = 1 := by decide
    rw [← hrest, utf8_append, List.length_append, hclose, utf8_replicate_length]
  have hne : rest ≠ "" := by
    rintro rfl
    have hnil : (utf8 "").length = 0 := by decide
    omega
  have hlen : (utf8 (kept ++ rest)).length = 65557 := by
    rw [utf8_append, List.length_append, hkeptLen, hrestLen]
    rfl
  have hgt : maxErrorTextBytes < (utf8 (kept ++ rest)).length := by
    rw [hlen]
    decide
  refine ⟨clampErrorText_gt hgt, ?_, fun h => ?_⟩
  · rw [clampErrorText_twice hkeptLen hne, clampErrorText_append hkeptLen hne, hrestLen]
    intro heq
    have hmarkers := (String.append_right_inj kept).mp heq
    exact absurd hmarkers (by decide)
  · have hle := (received_le_iff true _).mp h.1
    omega

end ErrorTexts

end Iso4
