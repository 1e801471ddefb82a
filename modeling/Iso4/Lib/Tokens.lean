/-
Texts as words and marks.

The longest run of word characters is a word, blanks are passed over, and any other character is a
mark.

* `tokens` — the tokens of a text;
* `tokens_render` — a text that is put together from pieces has the tokens of its pieces, when no two
  words stand side by side;
* `isChain_lines` — none do where lines are put together.
-/
import Mathlib.Data.List.Chain
import Mathlib.Data.List.TakeWhile

namespace Tokens

inductive Token where
  | word (s : List Char)
  | mark (c : Char)
  deriving DecidableEq

structure Alphabet where
  isWord : Char → Bool
  isBlank : Char → Bool

def tokens (A : Alphabet) : List Char → List Token
  | [] => []
  | c :: text =>
    if A.isWord c then .word (c :: text.takeWhile A.isWord) :: tokens A (text.dropWhile A.isWord)
    else if A.isBlank c then tokens A text
    else .mark c :: tokens A text
termination_by text => text.length
decreasing_by
  · have := (List.dropWhile_sublist A.isWord (l := text)).length_le
    simp only [List.length_cons]
    omega
  · simp
  · simp

/-! ### Pieces of a text -/

inductive Piece where
  | word (s : List Char)
  | blank (c : Char)
  | mark (c : Char)

namespace Piece

def text : Piece → List Char
  | word s => s
  | blank c => [c]
  | mark c => [c]

def token : Piece → Option Token
  | word s => some (.word s)
  | blank _ => none
  | mark c => some (.mark c)

def isWord : Piece → Bool
  | word _ => true
  | _ => false

/-- The piece is what it says it is. -/
def Fits (A : Alphabet) : Piece → Prop
  | word s => s ≠ [] ∧ ∀ c ∈ s, A.isWord c = true
  | blank c => A.isWord c = false ∧ A.isBlank c = true
  | mark c => A.isWord c = false ∧ A.isBlank c = false

/-- Two pieces that may follow each other: one of them is no word. -/
def Apart (p q : Piece) : Prop := p.isWord = false ∨ q.isWord = false

end Piece

def render (ps : List Piece) : List Char := ps.flatMap Piece.text

@[simp] theorem render_append (ps qs : List Piece) : render (ps ++ qs) = render ps ++ render qs :=
  List.flatMap_append

variable {A : Alphabet}

@[simp] theorem tokens_nil : tokens A [] = [] := by rw [tokens]

theorem tokens_blank {c : Char} (hword : A.isWord c = false) (hblank : A.isBlank c = true) (text : List Char) :
    tokens A (c :: text) = tokens A text := by
  rw [tokens]
  simp [hword, hblank]

theorem tokens_mark {c : Char} (hword : A.isWord c = false) (hblank : A.isBlank c = false) (text : List Char) :
    tokens A (c :: text) = .mark c :: tokens A text := by
  rw [tokens]
  simp [hword, hblank]

/-- A word ends where a character stands that is none of a word. -/
theorem tokens_word {s text : List Char} (hne : s ≠ []) (hs : ∀ c ∈ s, A.isWord c = true)
    (hend : ∀ c ∈ text.head?, A.isWord c = false) :
    tokens A (s ++ text) = .word s :: tokens A text := by
  obtain ⟨c, s, rfl⟩ := List.exists_cons_of_ne_nil hne
  have htake : text.takeWhile A.isWord = [] := by
    cases text with
    | nil => rfl
    | cons d text => exact List.takeWhile_cons_of_neg (by simp [hend d rfl])
  have hdrop : text.dropWhile A.isWord = text := by
    cases text with
    | nil => rfl
    | cons d text => exact List.dropWhile_cons_of_neg (by simp [hend d rfl])
  have hrest : ∀ d ∈ s, A.isWord d = true := fun d hd => hs d (List.mem_cons_of_mem c hd)
  rw [List.cons_append, tokens, if_pos (hs c List.mem_cons_self), List.takeWhile_append_of_pos hrest,
    List.dropWhile_append_of_pos hrest, htake, hdrop, List.append_nil]

/-- The text after a word begins with no word character. -/
theorem head_render {p q : Piece} {ps : List Piece} (hp : p.isWord = true) (hapart : p.Apart q)
    (hq : q.Fits A) : ∀ c ∈ (render (q :: ps)).head?, A.isWord c = false := by
  intro c hc
  cases q with
  | word s =>
    obtain hword | hword := hapart
    · rw [hp] at hword
      cases hword
    · cases hword
  | blank d =>
    obtain rfl : d = c := Option.some.inj hc
    exact hq.1
  | mark d =>
    obtain rfl : d = c := Option.some.inj hc
    exact hq.1

theorem tokens_render {ps : List Piece} (hfits : ∀ p ∈ ps, p.Fits A) (hchain : ps.IsChain Piece.Apart) :
    tokens A (render ps) = ps.filterMap Piece.token := by
  induction ps with
  | nil => exact tokens_nil
  | cons p ps ih =>
    have hp := hfits p List.mem_cons_self
    have hrest := ih (fun q hq => hfits q (List.mem_cons_of_mem p hq)) hchain.of_cons
    cases p with
    | blank c => exact (tokens_blank hp.1 hp.2 (render ps)).trans hrest
    | mark c => exact (tokens_mark hp.1 hp.2 (render ps)).trans (congrArg (List.cons (Token.mark c)) hrest)
    | word s =>
      have hend : ∀ c ∈ (render ps).head?, A.isWord c = false := by
        cases ps with
        | nil => exact nofun
        | cons q ps =>
          exact head_render (p := .word s) rfl (List.isChain_cons_cons.mp hchain).1
            (hfits q (List.mem_cons_of_mem _ List.mem_cons_self))
      exact (tokens_word hp.1 hp.2 hend).trans (congrArg (List.cons (Token.word s)) hrest)

/-- Lines that end in a blank or a mark may follow each other. -/
theorem isChain_lines {lines : List (List Piece)}
    (h : ∀ line ∈ lines, line.IsChain Piece.Apart ∧ ∀ p ∈ line.getLast?, p.isWord = false) :
    lines.flatten.IsChain Piece.Apart := by
  induction lines with
  | nil => exact List.IsChain.nil
  | cons line lines ih =>
    obtain ⟨hline, hlast⟩ := h line List.mem_cons_self
    have hrest := ih fun l hl => h l (List.mem_cons_of_mem line hl)
    exact List.isChain_append.mpr ⟨hline, hrest, fun p hp _ _ => .inl (hlast p hp)⟩

end Tokens
