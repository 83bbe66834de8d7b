import TeachAsm.Text.CodePoint

/-!
# Text

This module holds blank characters, trimming, cutting at a separator, splitting into words and
lines, and searching for a piece of text. What does not look at characters works on any list.
-/

namespace TeachAsm.Text

variable {α : Type}

/-- The characters that separate words: tab to carriage return, the four information
separators, and the space characters of Unicode. -/
def isBlank (c : CodePoint) : Bool :=
  let n := c.toNat
  (0x09 ≤ n && n ≤ 0x0D) || (0x1C ≤ n && n ≤ 0x20) || n == 0x85 || n == 0xA0 || n == 0x1680 ||
    (0x2000 ≤ n && n ≤ 0x200A) || n == 0x2028 || n == 0x2029 || n == 0x202F || n == 0x205F ||
    n == 0x3000

def trimEnd (p : α → Bool) (s : List α) : List α :=
  (s.reverse.dropWhile p).reverse

def stripLeft (s : Text) : Text :=
  s.dropWhile isBlank

def strip (s : Text) : Text :=
  trimEnd isBlank (stripLeft s)

/-- Cut at every member that satisfies `p`; `n` cuts leave `n + 1` pieces. -/
def splitWhen (p : α → Bool) (s : List α) : List (List α) :=
  s.foldr (fun c pieces =>
    if p c then [] :: pieces
    else match pieces with
      | [] => [[c]]
      | piece :: rest => (c :: piece) :: rest) [[]]

def words (s : Text) : List Text :=
  (splitWhen isBlank s).filter (fun piece => !piece.isEmpty)

def lines (s : Text) : List Text :=
  splitWhen (· == .char '\n') s

def beforeFirst [BEq α] (separator : α) (s : List α) : List α :=
  s.takeWhile (· != separator)

def afterLast [BEq α] (separator : α) (s : List α) : List α :=
  (s.reverse.takeWhile (· != separator)).reverse

def indexOf? [BEq α] (piece : List α) : List α → Option Nat
  | [] => if piece.isEmpty then some 0 else none
  | c :: cs => if piece.isPrefixOf (c :: cs) then some 0 else (indexOf? piece cs).map (· + 1)

def occursIn [BEq α] (piece : List α) : List α → Bool
  | [] => piece.isEmpty
  | c :: cs => piece.isPrefixOf (c :: cs) || occursIn piece cs

@[simp] theorem splitWhen_nil (p : α → Bool) : splitWhen p [] = [[]] := rfl

theorem splitWhen_ne_nil (p : α → Bool) (s : List α) : splitWhen p s ≠ [] := by
  cases s with
  | nil => simp
  | cons c cs =>
    simp only [splitWhen, List.foldr_cons]
    split
    · simp
    · split <;> simp

theorem splitWhen_clean (p : α → Bool) (s : List α) :
    ∀ piece ∈ splitWhen p s, ∀ c ∈ piece, p c = false := by
  induction s with
  | nil => simp
  | cons c cs ih =>
    intro piece hpiece d hd
    have hcons : splitWhen p (c :: cs) = if p c then [] :: splitWhen p cs
        else match splitWhen p cs with
          | [] => [[c]]
          | first :: rest => (c :: first) :: rest := rfl
    rw [hcons] at hpiece
    split at hpiece
    · cases List.mem_cons.mp hpiece with
      | inl h => subst h; cases hd
      | inr h => exact ih piece h d hd
    · next hc =>
      have hc' : p c = false := by simpa using hc
      split at hpiece
      · next hnil => exact absurd hnil (splitWhen_ne_nil p cs)
      · next first rest hsplit =>
        cases List.mem_cons.mp hpiece with
        | inl h =>
          subst h
          cases List.mem_cons.mp hd with
          | inl h => exact h ▸ hc'
          | inr h => exact ih first (hsplit ▸ List.mem_cons_self) d h
        | inr h => exact ih piece (hsplit ▸ List.mem_cons_of_mem _ h) d hd

theorem words_clean (s : Text) :
    ∀ word ∈ words s, word ≠ [] ∧ ∀ c ∈ word, isBlank c = false := by
  intro word hword
  obtain ⟨hmem, hne⟩ := List.mem_filter.mp hword
  exact ⟨by simpa using hne, splitWhen_clean isBlank s word hmem⟩

theorem isSome_indexOf? [BEq α] (piece s : List α) :
    (indexOf? piece s).isSome = occursIn piece s := by
  induction s with
  | nil => cases h : piece.isEmpty <;> simp [indexOf?, occursIn, h]
  | cons c cs ih =>
    cases h : piece.isPrefixOf (c :: cs) <;> simp [indexOf?, occursIn, h, ih]

end TeachAsm.Text
