/-
The textual forms of an IPv6 address, and the words they are read as.

A form is a list of groups joined by colons, full or with one `::`, its last two words perhaps
written as a dotted quad; around it stand brackets and a zone.  The forms are said here as
relations, apart from the code, and each of them is read as the words it spells.

* `Spells` — a text spells eight words;
* `Literal` — a text spells them between brackets or before a zone;
* `spells_hexText` — every address has a form;
* `wordList_spells` — the word list of a text that spells eight words is these words;
* `Literal.bare` — the address without its brackets and zone spells the same words.
-/
import Iso4.ReservedIp
import Mathlib.Data.List.Forall2
import Mathlib.Data.List.TakeWhile
import Mathlib.Tactic.Ring

namespace Iso4

open Text Js

/-! ### Forms -/

/-- Hex digits and their value. -/
structure HexWord (word : Nat) (text : List Char) : Prop where
  nonempty : text ≠ []
  digits : ∀ c ∈ text, digit c < 16
  value : text.foldl (fun n c => 16 * n + digit c) 0 = word

/-- A group has at most four of them. -/
structure HexGroup (word : Nat) (text : List Char) : Prop extends HexWord word text where
  short : text.length ≤ 4

/-- Groups, the last of them perhaps a dotted quad. -/
inductive Groups : List Nat → List (List Char) → Prop
  | nil : Groups [] []
  | cons {word : Nat} {text : List Char} {words : List Nat} {texts : List (List Char)} :
      HexGroup word text → Groups words texts → Groups (word :: words) (text :: texts)
  | quad {a b c d : Nat} : a < 256 → b < 256 → c < 256 → d < 256 →
      Groups [a * 256 + b, c * 256 + d] [quadText a b c d]

def joined (texts : List (List Char)) : List Char := [':'].intercalate texts

/-- A text of eight words, without brackets and zone. -/
inductive Spells : List Nat → List Char → Prop
  | full {words : List Nat} {texts : List (List Char)} :
      Groups words texts → words.length = 8 → Spells words (joined texts)
  | compressed {head tail : List Nat} {heads tails : List (List Char)} {zeros : Nat} :
      List.Forall₂ HexGroup head heads → Groups tail tails → 0 < zeros →
      head.length + zeros + tail.length = 8 →
      Spells (head ++ List.replicate zeros 0 ++ tail) (joined heads ++ ':' :: ':' :: joined tails)

/-- Nothing, or `%` and the name of a zone. -/
def IsZone (text : List Char) : Prop :=
  text = [] ∨ ∃ id, text = '%' :: id ∧ id ≠ [] ∧
    ∀ c ∈ id, isLineTerminator c = false ∧ c ≠ '[' ∧ c ≠ ']'

/-- An IPv6 literal of eight words. -/
def Literal (words : List Nat) (text : List Char) : Prop :=
  ∃ address zone, Spells words address ∧ IsZone zone ∧
    (text = address ++ zone ∨ text = '[' :: (address ++ zone ++ [']']))

/-! ### Characters -/

theorem toLower_toNat (c : Char) :
    c.toLower.toNat = if 65 ≤ c.toNat ∧ c.toNat ≤ 90 then c.toNat + 32 else c.toNat := by
  have hcases : (c.val ≥ 'A'.val ∧ c.val ≤ 'Z'.val) ↔ 65 ≤ c.toNat ∧ c.toNat ≤ 90 := by
    simp [UInt32.le_iff_toNat_le]
  unfold Char.toLower
  split
  · next h =>
    rw [if_pos (hcases.mp h)]
    have hn := hcases.mp h
    show (c.val + ('a'.val - 'A'.val)).toNat = c.val.toNat + 32
    rw [UInt32.toNat_add]
    simp
    omega
  · next h => rw [if_neg fun hn => h (hcases.mpr hn)]

/-- A character that is no letter is the lower case of itself alone. -/
theorem toLower_eq_iff {c x : Char} (hx : x.toNat < 65 ∨ 122 < x.toNat ∨ x.toNat ∈ [91, 93]) :
    c.toLower = x ↔ c = x := by
  rw [← Char.toNat_inj, ← Char.toNat_inj, toLower_toNat]
  simp only [List.mem_cons, List.not_mem_nil, or_false] at hx
  split <;> omega

theorem isLineTerminator_toLower (c : Char) : isLineTerminator c.toLower = isLineTerminator c := by
  rw [Bool.eq_iff_iff]
  simp only [isLineTerminator, List.contains_iff_mem, List.mem_cons, List.not_mem_nil, or_false]
  rw [toLower_toNat]
  split <;> omega

theorem digit_eq (c : Char) :
    digit c = if 48 ≤ c.toNat ∧ c.toNat ≤ 57 then c.toNat - 48
      else if 97 ≤ c.toNat ∧ c.toNat ≤ 122 then c.toNat - 87
      else if 65 ≤ c.toNat ∧ c.toNat ≤ 90 then c.toNat - 55
      else 36 := by
  unfold digit
  simp [Char.isDigit, UInt32.le_iff_toNat_le, Char.le_def]

theorem digit_toLower (c : Char) : digit c.toLower = digit c := by
  rw [digit_eq, digit_eq, toLower_toNat]
  grind

theorem digit_lt_sixteen {c : Char} :
    digit c < 16 ↔ (48 ≤ c.toNat ∧ c.toNat ≤ 57) ∨ (97 ≤ c.toNat ∧ c.toNat ≤ 102) ∨
      (65 ≤ c.toNat ∧ c.toNat ≤ 70) := by
  rw [digit_eq]
  split
  · omega
  · split
    · omega
    · split <;> omega

/-- The characters of an address. -/
def AddressChar (c : Char) : Prop := digit c < 16 ∨ c = ':' ∨ c = '.'

theorem AddressChar.ne {c x : Char} (h : AddressChar c) (hx : x = '[' ∨ x = ']' ∨ x = '%') :
    c ≠ x := by
  rintro rfl
  rcases hx with rfl | rfl | rfl <;> rcases h with h | h | h <;> revert h <;> decide

theorem AddressChar.oneLine {c : Char} (h : AddressChar c) : isLineTerminator c = false := by
  rw [← Bool.not_eq_true]
  simp only [isLineTerminator, List.contains_iff_mem, List.mem_cons, List.not_mem_nil, or_false]
  rcases h with h | rfl | rfl
  · rw [digit_lt_sixteen] at h
    omega
  · decide
  · decide

/-! ### Groups -/

@[simp] theorem joined_nil : joined [] = [] := rfl

@[simp] theorem joined_singleton (text : List Char) : joined [text] = text := by
  simp [joined, List.intercalate]

theorem joined_cons (text : List Char) {texts : List (List Char)} (h : texts ≠ []) :
    joined (text :: texts) = text ++ ':' :: joined texts := by
  unfold joined
  rw [List.intercalate_cons_of_ne_nil h, List.append_assoc]
  rfl

theorem map_joined (f : Char → Char) (hf : f ':' = ':') :
    ∀ texts : List (List Char), (joined texts).map f = joined (texts.map (List.map f))
  | [] => rfl
  | [text] => by simp
  | text :: next :: texts => by
    rw [joined_cons text (List.cons_ne_nil next texts), List.map_append, List.map_cons, hf,
      map_joined f hf (next :: texts)]
    exact (joined_cons (text.map f) (List.cons_ne_nil (next.map f) _)).symm

theorem forall_mem_joined {p : Char → Prop} (hcolon : p ':') :
    ∀ texts : List (List Char), (∀ text ∈ texts, ∀ c ∈ text, p c) → ∀ c ∈ joined texts, p c
  | [], _, _, hc => absurd hc (List.not_mem_nil)
  | [text], h, c, hc => h text (List.mem_singleton_self text) c (by simpa using hc)
  | text :: next :: texts, h, c, hc => by
    rw [joined_cons _ (List.cons_ne_nil _ _), List.mem_append, List.mem_cons] at hc
    rcases hc with hc | rfl | hc
    · exact h text (List.mem_cons_self ..) c hc
    · exact hcolon
    · exact forall_mem_joined hcolon (next :: texts)
        (fun t ht => h t (List.mem_cons_of_mem text ht)) c hc

theorem HexWord.no_colon {word : Nat} {text : List Char} (h : HexWord word text) : ':' ∉ text :=
  fun hc => absurd (h.digits _ hc) (by decide)

theorem HexWord.no_dot {word : Nat} {text : List Char} (h : HexWord word text) : '.' ∉ text :=
  fun hc => absurd (h.digits _ hc) (by decide)

theorem HexWord.toLower {word : Nat} {text : List Char} (h : HexWord word text) :
    HexWord word (text.map Char.toLower) where
  nonempty := by simpa using h.nonempty
  digits c hc := by
    obtain ⟨d, hd, rfl⟩ := List.mem_map.mp hc
    rw [digit_toLower]
    exact h.digits d hd
  value := by
    rw [List.foldl_map]
    simp only [digit_toLower]
    exact h.value

theorem HexGroup.toLower {word : Nat} {text : List Char} (h : HexGroup word text) :
    HexGroup word (text.map Char.toLower) :=
  { h.toHexWord.toLower with short := by simpa using h.short }

/-- Four hex digits make a word of sixteen bits. -/
theorem HexGroup.lt {word : Nat} {text : List Char} (h : HexGroup word text) : word < 65536 := by
  have hbound : ∀ (text : List Char) (n : Nat), (∀ c ∈ text, digit c < 16) →
      text.foldl (fun n c => 16 * n + digit c) n < (n + 1) * 16 ^ text.length := by
    intro text
    induction text with
    | nil => intro n _; simp
    | cons c rest ih =>
      intro n hdigits
      have hc := hdigits c (List.mem_cons_self ..)
      have hrest := ih (16 * n + digit c) fun d hd => hdigits d (List.mem_cons_of_mem c hd)
      rw [List.foldl_cons, List.length_cons, pow_succ']
      calc _ < (16 * n + digit c + 1) * 16 ^ rest.length := hrest
        _ ≤ (16 * (n + 1)) * 16 ^ rest.length := Nat.mul_le_mul_right _ (by omega)
        _ = (n + 1) * (16 * 16 ^ rest.length) := by ring
  have hlt := hbound text 0 h.digits
  rw [h.value] at hlt
  have hpow : 16 ^ text.length ≤ 16 ^ 4 := Nat.pow_le_pow_right (by decide) h.short
  omega

/-! ### Dotted quads -/

theorem repr_isDigit {n : Nat} {c : Char} (h : c ∈ (Nat.repr n).toList) : c.isDigit = true := by
  rw [Nat.toList_repr] at h
  exact Nat.isDigit_of_mem_toDigits (by decide) (by decide) h

theorem isDigit_iff {c : Char} : c.isDigit = true ↔ 48 ≤ c.toNat ∧ c.toNat ≤ 57 := by
  simp [Char.isDigit, UInt32.le_iff_toNat_le]

theorem digit_lt_ten {c : Char} : digit c < 10 ↔ c.isDigit = true := by
  rw [digit_eq, isDigit_iff]
  split
  · omega
  · split
    · omega
    · split <;> omega

theorem splitOn_quadText (a b c d : Nat) : (quadText a b c d).splitOn '.' =
    [(Nat.repr a).toList, (Nat.repr b).toList, (Nat.repr c).toList, (Nat.repr d).toList] := by
  have hdot : ∀ text ∈ [(Nat.repr a).toList, (Nat.repr b).toList, (Nat.repr c).toList,
      (Nat.repr d).toList], '.' ∉ text := by
    intro text htext hdot
    simp only [List.mem_cons, List.not_mem_nil, or_false] at htext
    rcases htext with rfl | rfl | rfl | rfl <;> exact absurd (repr_isDigit hdot) (by decide)
  rw [← List.splitOn_intercalate '.' hdot (List.cons_ne_nil _ _)]
  simp [quadText, List.intercalate]

theorem mem_quadText {a b c d : Nat} {char : Char} (h : char ∈ quadText a b c d) :
    char.isDigit = true ∨ char = '.' := by
  simp only [quadText, List.mem_append, List.mem_cons] at h
  rcases h with h | rfl | h | rfl | h | rfl | h
  · exact .inl (repr_isDigit h)
  · exact .inr rfl
  · exact .inl (repr_isDigit h)
  · exact .inr rfl
  · exact .inl (repr_isDigit h)
  · exact .inr rfl
  · exact .inl (repr_isDigit h)

theorem integer_repr (n : Nat) : integer 10 (Nat.repr n).toList = some n := by
  rw [Nat.toList_repr]
  exact integer_toDigits (by decide) (by decide) n

theorem dottedQuad_quadText (a b c d : Nat) : dottedQuad (quadText a b c d) = some (a, b, c, d) := by
  unfold dottedQuad
  rw [splitOn_quadText]
  simp only [integer_repr]
  rfl

theorem integer_digits {base n : Nat} {text : List Char} (h : integer base text = some n) :
    ∀ c ∈ text, digit c < base := by
  unfold integer at h
  split at h
  · next hall => simpa using hall.2
  · cases h

/-- A quad has no colon. -/
theorem dottedQuad_colon {text : List Char} (h : ':' ∈ text) : dottedQuad text = none := by
  have hdigit : ∀ {part : List Char} {n : Nat}, integer 10 part = some n → ':' ∉ part :=
    fun hpart hc => absurd (integer_digits hpart _ hc) (by decide)
  unfold dottedQuad
  split
  · next a b c d heq =>
    have htext : ['.'].intercalate (text.splitOn '.') = text := List.intercalate_splitOn '.'
    rw [heq] at htext
    cases ha : integer 10 a with
    | none => rfl
    | some na => cases hb : integer 10 b with
      | none => rfl
      | some nb => cases hc : integer 10 c with
        | none => rfl
        | some nc => cases hd : integer 10 d with
          | none => rfl
          | some nd =>
            rw [← htext] at h
            simp [List.intercalate, hdigit ha, hdigit hb, hdigit hc, hdigit hd] at h
  · rfl

theorem dottedQuad_no_dot {text : List Char} (h : '.' ∉ text) : dottedQuad text = none := by
  unfold dottedQuad
  rw [List.splitOn_eq_singleton h]

/-! ### The dotted tail -/

theorem moveDotted_cons_of_none {c : Char} {rest : List Char} (h : dottedQuad (c :: rest) = none) :
    moveDotted (c :: rest) = c :: moveDotted rest := by
  rw [moveDotted, h]

/-- Before a colon nothing is moved. -/
theorem moveDotted_colon (rest : List Char) :
    ∀ before : List Char, moveDotted (before ++ ':' :: rest) = before ++ ':' :: moveDotted rest
  | [] => moveDotted_cons_of_none (dottedQuad_colon (List.mem_cons_self ..))
  | c :: before => by
    rw [List.cons_append, moveDotted_cons_of_none (dottedQuad_colon (by simp)),
      moveDotted_colon rest before]
    rfl

theorem moveDotted_no_dot : ∀ {text : List Char}, '.' ∉ text → moveDotted text = text
  | [], _ => rfl
  | c :: rest, h => by
    rw [moveDotted_cons_of_none (dottedQuad_no_dot h),
      moveDotted_no_dot fun hrest => h (List.mem_cons_of_mem c hrest)]

theorem moveDotted_quadText (a b c d : Nat) :
    moveDotted (quadText a b c d) = joined [hexText (a * 256 + b), hexText (c * 256 + d)] := by
  have hquad := dottedQuad_quadText a b c d
  cases hcons : quadText a b c d with
  | nil => rw [hcons] at hquad; cases hquad
  | cons first rest =>
    rw [hcons] at hquad
    rw [moveDotted, hquad, joined_cons _ (List.cons_ne_nil _ _), joined_singleton]

theorem hexWord_hexText (n : Nat) : HexWord n (hexText n) where
  nonempty := Nat.toDigits_ne_nil
  digits := (toDigits_spec (by decide) (by decide) n).1
  value := (toDigits_spec (by decide) (by decide) n).2

theorem hexGroup_hexText {n : Nat} (h : n < 65536) : HexGroup n (hexText n) :=
  { hexWord_hexText n with
    short := (Nat.length_toDigits_le_iff (by decide) (by decide)).mpr (by omega) }

/-- Every address has a form. -/
theorem spells_hexText {words : List Nat} (hlen : words.length = 8)
    (hlt : ∀ word ∈ words, word < 65536) : Spells words (joined (words.map hexText)) := by
  refine .full ?_ hlen
  clear hlen
  induction words with
  | nil => exact .nil
  | cons word words ih =>
    exact .cons (hexGroup_hexText (hlt word (List.mem_cons_self ..)))
      (ih fun other hmem => hlt other (List.mem_cons_of_mem word hmem))

theorem Groups.length_pos {words : List Nat} {texts : List (List Char)} (h : Groups words texts)
    (hne : texts ≠ []) : words ≠ [] := by
  cases h with
  | nil => exact absurd rfl hne
  | cons _ _ => exact List.cons_ne_nil _ _
  | quad _ _ _ _ => exact List.cons_ne_nil _ _

/-- The groups become words in hex, each a text of its own. -/
theorem Groups.moved {words : List Nat} {texts : List (List Char)} (h : Groups words texts) :
    ∃ moved, List.Forall₂ HexWord words moved ∧ moveDotted (joined texts) = joined moved := by
  induction h with
  | nil => exact ⟨[], .nil, rfl⟩
  | @cons word text words texts hgroup hrest ih =>
    obtain ⟨moved, hmoved, heq⟩ := ih
    refine ⟨text :: moved, .cons hgroup.toHexWord hmoved, ?_⟩
    cases texts with
    | nil =>
      have hnil : moved = [] := by
        cases hrest
        cases hmoved
        rfl
      rw [hnil, joined_singleton]
      exact moveDotted_no_dot hgroup.no_dot
    | cons next texts =>
      have hne : moved ≠ [] := by
        rintro rfl
        cases hmoved
        exact hrest.length_pos (List.cons_ne_nil _ _) rfl
      rw [joined_cons text (List.cons_ne_nil next texts), joined_cons text hne, moveDotted_colon, heq]
  | quad _ _ _ _ =>
    refine ⟨_, .cons (hexWord_hexText _) (.cons (hexWord_hexText _) .nil), ?_⟩
    rw [joined_singleton, moveDotted_quadText]

/-! ### The two halves -/

theorem modifyHead_append (front : List Char) (halves : List (List Char)) (c : Char) :
    (halves.modifyHead (front ++ ·)).modifyHead (c :: ·) = halves.modifyHead (c :: front ++ ·) := by
  cases halves <;> rfl

theorem splitPairs_cons {c : Char} {rest : List Char} (h : c ≠ ':' ∨ rest.head? ≠ some ':') :
    splitPairs (c :: rest) = (splitPairs rest).modifyHead (c :: ·) := by
  rw [splitPairs]
  rintro rest' rfl rfl
  simp at h

/-- A group stays in its half. -/
theorem splitPairs_group {text : List Char} (rest : List Char) (h : ':' ∉ text) :
    splitPairs (text ++ rest) = (splitPairs rest).modifyHead (text ++ ·) := by
  induction text with
  | nil =>
    show splitPairs rest = _
    cases splitPairs rest <;> rfl
  | cons c text ih =>
    have hc : c ≠ ':' := fun heq => h (heq ▸ List.mem_cons_self ..)
    rw [List.cons_append, splitPairs_cons (.inl hc), ih fun hm => h (List.mem_cons_of_mem c hm),
      modifyHead_append]

theorem HexWord.head {word : Nat} {text : List Char} (h : HexWord word text) (texts : List (List Char))
    (rest : List Char) : (joined (text :: texts) ++ rest).head? ≠ some ':' := by
  obtain ⟨c, tail, rfl⟩ := List.exists_cons_of_ne_nil h.nonempty
  have hc : c ≠ ':' := fun heq => h.no_colon (heq ▸ List.mem_cons_self ..)
  cases texts with
  | nil => simpa using hc
  | cons next texts =>
    rw [joined_cons _ (List.cons_ne_nil next texts)]
    simpa using hc

/-- Words joined by single colons stay in their half. -/
theorem splitPairs_joined (rest : List Char) {words : List Nat} {texts : List (List Char)}
    (h : List.Forall₂ HexWord words texts) :
    splitPairs (joined texts ++ rest) = (splitPairs rest).modifyHead (joined texts ++ ·) := by
  induction h with
  | nil => cases hs : splitPairs rest <;> simp [hs]
  | @cons word text words texts hword hrest ih =>
    cases hrest with
    | nil => rw [joined_singleton, splitPairs_group rest hword.no_colon]
    | @cons word' next words texts hnext hmore =>
      rw [joined_cons text (List.cons_ne_nil next texts), List.append_assoc, List.cons_append,
        splitPairs_group _ hword.no_colon, splitPairs_cons (.inr (hnext.head texts rest)), ih]
      cases splitPairs rest <;> simp

theorem halfWords_joined {words : List Nat} {texts : List (List Char)}
    (h : List.Forall₂ HexWord words texts) : halfWords (joined texts) = texts := by
  have hcolon : ∀ text ∈ texts, ':' ∉ text := by
    intro text htext
    obtain ⟨i, hi, rfl⟩ := List.mem_iff_getElem.mp htext
    exact (h.get (h.length_eq ▸ hi) hi).no_colon
  cases h with
  | nil => rfl
  | @cons word text words texts hword hrest =>
    have hne : joined (text :: texts) ≠ [] := by
      cases texts with
      | nil => simpa using hword.nonempty
      | cons next texts =>
        rw [joined_cons text (List.cons_ne_nil next texts)]
        simp
    unfold halfWords
    rw [if_neg hne]
    exact List.splitOn_intercalate ':' hcolon (List.cons_ne_nil _ _)

theorem HexWord.parseHex {word : Nat} {text : List Char} (h : HexWord word text) :
    parseHex text = some word := by
  have hall : text.takeWhile (fun c => decide (digit c < 16)) = text :=
    List.takeWhile_eq_self_iff.mpr fun c hc => by simpa using h.digits c hc
  unfold Iso4.parseHex integer
  rw [hall, if_pos ⟨h.nonempty, by simpa using h.digits⟩, h.value]

theorem map_parseHex {words : List Nat} {texts : List (List Char)}
    (h : List.Forall₂ HexWord words texts) : texts.map parseHex = words.map some := by
  induction h with
  | nil => rfl
  | cons hword _ ih => rw [List.map_cons, List.map_cons, hword.parseHex, ih]

/-- **The words that are read are the words that are spelled.** -/
theorem wordList_spells {words : List Nat} {text : List Char} (h : Spells words text) :
    wordList text = words.map some := by
  unfold wordList
  cases h with
  | @full _ texts hgroups hlen =>
    obtain ⟨moved, hmoved, heq⟩ := hgroups.moved
    have hhalves : splitPairs (joined moved) = [joined moved] := by
      have hsplit := splitPairs_joined [] hmoved
      rw [List.append_nil] at hsplit
      rw [hsplit]
      simp [splitPairs]
    have hcount : moved.length = 8 := by rw [← hmoved.length_eq, hlen]
    have hnone : halfWords [] = [] := rfl
    rw [heq, hhalves]
    simp [halfWords_joined hmoved, hcount, map_parseHex hmoved, hnone]
  | @compressed head tail heads tails zeros hheads htails hzeros hlen =>
    obtain ⟨moved, hmoved, heq⟩ := htails.moved
    have hheads' : List.Forall₂ HexWord head heads := hheads.imp fun _ _ => HexGroup.toHexWord
    have hhalves : splitPairs (joined heads ++ ':' :: ':' :: joined moved) =
        [joined heads, joined moved] := by
      have hsplit := splitPairs_joined [] hmoved
      rw [List.append_nil] at hsplit
      rw [splitPairs_joined _ hheads', splitPairs, hsplit]
      simp [splitPairs]
    have hmove : moveDotted (joined heads ++ ':' :: ':' :: joined tails) =
        joined heads ++ ':' :: ':' :: joined moved := by
      have hcolon := moveDotted_colon (joined tails) (joined heads ++ [':'])
      rw [heq] at hcolon
      simpa using hcolon
    have hzero : Iso4.parseHex ['0'] = some 0 := by decide
    have hcount : 8 - heads.length - moved.length = zeros := by
      rw [← hheads.length_eq, ← hmoved.length_eq]
      omega
    rw [hmove, hhalves]
    simp [halfWords_joined hheads', halfWords_joined hmoved, hcount, map_parseHex hheads',
      map_parseHex hmoved, hzero]

/-! ### Literals -/

theorem Groups.addressChar {words : List Nat} {texts : List (List Char)} (h : Groups words texts) :
    ∀ text ∈ texts, ∀ c ∈ text, AddressChar c := by
  induction h with
  | nil => exact fun _ ht => absurd ht List.not_mem_nil
  | cons hgroup _ ih =>
    intro text ht c hc
    rcases List.mem_cons.mp ht with rfl | ht
    · exact .inl (hgroup.digits c hc)
    · exact ih text ht c hc
  | quad _ _ _ _ =>
    intro text ht c hc
    rw [List.mem_singleton.mp ht] at hc
    rcases mem_quadText hc with hdigit | rfl
    · exact .inl (Nat.lt_trans (digit_lt_ten.mpr hdigit) (by decide))
    · exact .inr (.inr rfl)

theorem groups_of_forall₂ {words : List Nat} {texts : List (List Char)}
    (h : List.Forall₂ HexGroup words texts) : Groups words texts := by
  induction h with
  | nil => exact .nil
  | cons hgroup _ ih => exact .cons hgroup ih

theorem Spells.addressChar {words : List Nat} {text : List Char} (h : Spells words text) :
    ∀ c ∈ text, AddressChar c := by
  have hcolon : AddressChar ':' := .inr (.inl rfl)
  cases h with
  | full hgroups _ => exact forall_mem_joined hcolon _ hgroups.addressChar
  | compressed hheads htails _ _ =>
    intro c hc
    simp only [List.mem_append, List.mem_cons] at hc
    rcases hc with hc | rfl | rfl | hc
    · exact forall_mem_joined hcolon _ (groups_of_forall₂ hheads).addressChar c hc
    · exact hcolon
    · exact hcolon
    · exact forall_mem_joined hcolon _ htails.addressChar c hc

theorem Groups.lt {words : List Nat} {texts : List (List Char)} (h : Groups words texts) :
    ∀ word ∈ words, word < 65536 := by
  induction h with
  | nil => exact fun _ hw => absurd hw List.not_mem_nil
  | cons hgroup _ ih =>
    intro word hw
    rcases List.mem_cons.mp hw with rfl | hw
    · exact hgroup.lt
    · exact ih word hw
  | quad ha hb hc hd =>
    intro word hw
    simp only [List.mem_cons, List.not_mem_nil, or_false] at hw
    omega

/-- An address is eight words of sixteen bits. -/
theorem Spells.words {words : List Nat} {text : List Char} (h : Spells words text) :
    words.length = 8 ∧ ∀ word ∈ words, word < 65536 := by
  cases h with
  | full hgroups hlen => exact ⟨hlen, hgroups.lt⟩
  | compressed hheads htails _ hlen =>
    refine ⟨by simpa [Nat.add_assoc] using hlen, fun word hw => ?_⟩
    simp only [List.mem_append] at hw
    rcases hw with (hw | hw) | hw
    · exact (groups_of_forall₂ hheads).lt word hw
    · rw [List.eq_of_mem_replicate hw]
      decide
    · exact htails.lt word hw

theorem mem_joined {text : List Char} {texts : List (List Char)} (h : texts ≠ []) :
    ':' ∈ joined (text :: texts) := by
  rw [joined_cons text h]
  simp

theorem Spells.colon {words : List Nat} {text : List Char} (h : Spells words text) : ':' ∈ text := by
  cases h with
  | full hgroups hlen =>
    cases hgroups with
    | nil => cases hlen
    | @cons _ text words texts _ hrest =>
      refine mem_joined ?_
      rintro rfl
      cases hrest
      cases hlen
    | quad _ _ _ _ => cases hlen
  | compressed _ _ _ _ => simp

theorem Groups.toLower {words : List Nat} {texts : List (List Char)} (h : Groups words texts) :
    Groups words (texts.map (List.map Char.toLower)) := by
  induction h with
  | nil => exact .nil
  | cons hgroup _ ih => exact .cons hgroup.toLower ih
  | @quad a b c d ha hb hc hd =>
    have hsame : (quadText a b c d).map Char.toLower = quadText a b c d := by
      refine (List.map_congr_left fun char hmem => ?_).trans (List.map_id _)
      rcases mem_quadText hmem with hdigit | rfl
      · have hrange := isDigit_iff.mp hdigit
        exact (toLower_eq_iff (x := char) (.inl (by omega))).mpr rfl
      · rfl
    simp only [List.map_cons, List.map_nil, hsame]
    exact .quad ha hb hc hd

theorem Spells.toLower {words : List Nat} {text : List Char} (h : Spells words text) :
    Spells words (text.map Char.toLower) := by
  cases h with
  | full hgroups hlen =>
    rw [map_joined Char.toLower rfl]
    exact .full hgroups.toLower hlen
  | compressed hheads htails hzeros hlen =>
    rw [List.map_append, List.map_cons, List.map_cons, map_joined Char.toLower rfl,
      map_joined Char.toLower rfl]
    refine .compressed ?_ htails.toLower hzeros hlen
    rw [List.forall₂_map_right_iff]
    exact hheads.imp fun _ _ => HexGroup.toLower

theorem stripZone_zone {text : List Char} (h : ∀ c ∈ text, c ≠ '%') {zone : List Char}
    (hzone : zone = [] ∨ ∃ id, zone = '%' :: id ∧ id.any isLineTerminator = false) :
    stripZone (text ++ zone) = text := by
  induction text with
  | nil =>
    rcases hzone with rfl | ⟨id, rfl, hline⟩
    · rfl
    · simp [stripZone, hline]
  | cons c text ih =>
    have hc : (c == '%') = false := beq_eq_false_iff_ne.mpr (h c (List.mem_cons_self ..))
    rw [List.cons_append, stripZone, hc, ih fun d hd => h d (List.mem_cons_of_mem c hd)]
    rfl

theorem unbracket_plain {text : String} (h : ∀ c ∈ text.toList, c ≠ '[' ∧ c ≠ ']') :
    (unbracket text).toList = text.toList := by
  have hstart : startsWith text "[" = false := by
    unfold startsWith
    cases hlist : text.toList with
    | nil => rfl
    | cons c rest =>
      have hc : c ≠ '[' := (h c (hlist ▸ List.mem_cons_self ..)).1
      simp [List.isPrefixOf, Ne.symm hc]
  have hlast : text.toList.getLast? ≠ some ']' :=
    fun heq => (h ']' (List.mem_of_getLast? heq)).2 rfl
  unfold unbracket
  simp [hstart, hlast]

theorem unbracket_brackets {text : String} {inner : List Char}
    (h : text.toList = '[' :: (inner ++ [']'])) : (unbracket text).toList = inner := by
  have hstart : startsWith text "[" = true := by
    unfold startsWith
    rw [h]
    rfl
  unfold unbracket
  simp [hstart, h]

theorem IsZone.chars {zone : List Char} (h : IsZone zone) : ∀ c ∈ zone, c ≠ '[' ∧ c ≠ ']' := by
  rcases h with rfl | ⟨id, rfl, -, hid⟩
  · exact fun _ hc => absurd hc List.not_mem_nil
  · intro c hc
    rcases List.mem_cons.mp hc with rfl | hc
    · decide
    · exact (hid c hc).2

theorem stripZone_lower {words : List Nat} {address zone : List Char} (h : Spells words address)
    (hzone : IsZone zone) :
    stripZone ((address ++ zone).map Char.toLower) = address.map Char.toLower := by
  rw [List.map_append]
  refine stripZone_zone (fun c hc => (h.toLower.addressChar c hc).ne (.inr (.inr rfl))) ?_
  rcases hzone with rfl | ⟨id, rfl, -, hid⟩
  · exact .inl rfl
  · refine .inr ⟨id.map Char.toLower, rfl, ?_⟩
    rw [List.any_eq_false]
    intro c hc
    obtain ⟨d, hd, rfl⟩ := List.mem_map.mp hc
    rw [isLineTerminator_toLower, (hid d hd).1]
    decide

/-- **Without its brackets and zone a literal spells the same words.** -/
theorem Literal.bare {words : List Nat} {text : String} (h : Literal words text.toList) :
    Spells words (bare text) := by
  obtain ⟨address, zone, hspells, hzone, htext⟩ := h
  have hlower : (toLowerCase text).toList = text.toList.map Char.toLower := String.toList_ofList
  have hchars : ∀ c ∈ address ++ zone, c ≠ '[' ∧ c ≠ ']' := by
    intro c hc
    rcases List.mem_append.mp hc with hc | hc
    · exact ⟨(hspells.addressChar c hc).ne (.inl rfl), (hspells.addressChar c hc).ne (.inr (.inl rfl))⟩
    · exact hzone.chars c hc
  unfold Iso4.bare
  rcases htext with htext | htext
  · have hplain : ∀ c ∈ (toLowerCase text).toList, c ≠ '[' ∧ c ≠ ']' := by
      rw [hlower, htext]
      intro c hc
      obtain ⟨d, hd, rfl⟩ := List.mem_map.mp hc
      rw [Ne, Ne, toLower_eq_iff (by decide), toLower_eq_iff (by decide)]
      exact hchars d hd
    rw [unbracket_plain hplain, hlower, htext, stripZone_lower hspells hzone]
    exact hspells.toLower
  · have hbrackets : (toLowerCase text).toList =
        '[' :: ((address ++ zone).map Char.toLower ++ [']']) := by
      rw [hlower, htext]
      simp
    rw [unbracket_brackets hbrackets, stripZone_lower hspells hzone]
    exact hspells.toLower

end Iso4
