import TeachAsm.Analysis
import TeachAsm.Completion
import TeachAsm.Proofs.Spacing

/-!
# Line endings

A line that ends in a carriage return and a line feed is the line without them. A source line has
lost its carriage returns before it is read, and completion, which collects labels on the lines as
they stand, strips them with the blanks around a label.
-/

namespace TeachAsm

namespace Text

variable {α : Type}

private theorem trimEnd_cons (p : α → Bool) (c : α) (s : List α) :
    trimEnd p (c :: s) = trimEnd p (c :: trimEnd p s) := by
  obtain ⟨tail, hsplit, htail⟩ := exists_trimEnd p s
  calc
    trimEnd p (c :: s) = trimEnd p ((c :: trimEnd p s) ++ tail) := by
      rw [List.cons_append, ← hsplit]
    _ = trimEnd p (c :: trimEnd p s) := trimEnd_append _ htail

/-- The text with a carriage return before every line feed. -/
def crlf (s : Text) : Text :=
  s.flatMap fun c => if c = .char '\n' then [.char '\r', .char '\n'] else [c]

private theorem crlf_cons (c : CodePoint) (s : Text) : crlf (c :: s) =
    (if c = .char '\n' then [.char '\r', .char '\n'] else [c]) ++ crlf s := rfl

private theorem isEmpty_crlf (s : Text) : (crlf s).isEmpty = s.isEmpty := by
  cases s with
  | nil => rfl
  | cons c cs =>
      rw [crlf_cons]
      split <;> rfl

/-- The lines are the same but for carriage returns at their ends. -/
private theorem lines_crlf (s : Text) : (lines (crlf s)).map (trimEnd (· == .char '\r')) =
    (lines s).map (trimEnd (· == .char '\r')) := by
  induction s with
  | nil => rfl
  | cons c cs ih =>
      rw [crlf_cons]
      by_cases hc : c = .char '\n'
      · have hold : lines (.char '\n' :: cs) = [] :: lines cs := rfl
        have hnew : lines ([.char '\r', .char '\n'] ++ crlf cs) =
            [.char '\r'] :: lines (crlf cs) := rfl
        rw [if_pos hc, hc, hold, hnew]
        exact congrArg ([] :: ·) ih
      · -- the character goes in front of the first line on both sides
        have hcut : (c == .char '\n') = false := beq_eq_false_iff_ne.mpr hc
        obtain ⟨first, rest, hlines⟩ := List.exists_cons_of_ne_nil (splitWhen_ne_nil _ cs)
        obtain ⟨first', rest', hlines'⟩ := List.exists_cons_of_ne_nil (splitWhen_ne_nil _ (crlf cs))
        rw [lines, lines, hlines, hlines', List.map_cons, List.map_cons, List.cons.injEq] at ih
        rw [if_neg hc, List.singleton_append, lines, lines, splitWhen_cons, splitWhen_cons, hcut,
          hlines, hlines']
        simp only [Bool.false_eq_true, if_false, List.map_cons, ih.2]
        rw [trimEnd_cons, ih.1, ← trimEnd_cons]

private theorem strip_trimEnd_return (s : Text) :
    strip (trimEnd (· == .char '\r') s) = strip s := by
  obtain ⟨tail, hsplit, htail⟩ := exists_trimEnd (· == .char '\r') s
  have hblank : Blanks tail := by
    intro c hc
    rw [beq_iff_eq.mp (htail c hc)]
    decide
  calc
    strip (trimEnd (· == .char '\r') s) = strip (trimEnd (· == .char '\r') s ++ tail) :=
      (strip_append_blanks _ hblank).symm
    _ = strip s := by rw [← hsplit]

end Text

theorem sourceLines_crlf (text : Text) : sourceLines text.crlf = sourceLines text := by
  have hpiece (s : Text) (i : Nat) : (sourceLines s)[i]? =
      ((Text.lines s).map (Text.trimEnd (· == .char '\r')))[i]?.map fun raw => ⟨i, raw⟩ := by
    rw [getElem?_sourceLines_eq, List.getElem?_map, Option.map_map]
    rfl
  apply List.ext_getElem?
  intro i
  rw [hpiece, hpiece, Text.lines_crlf]

theorem Analysis.run_crlf (limit : Int) (text : Text) : run limit text.crlf = run limit text := by
  rw [run, run, Text.isEmpty_crlf, sourceLines_crlf]

namespace Completion

private theorem labels_map_trimEnd (lines : List Text) :
    labels (lines.map (Text.trimEnd (· == .char '\r'))) = labels lines := by
  rw [labels, labels, List.filterMap_map]
  congr 1
  funext line
  rw [Function.comp_apply, Text.strip_trimEnd_return]

private theorem labels_crlf (text : Text) :
    labels (Text.lines text.crlf) = labels (Text.lines text) := by
  rw [← labels_map_trimEnd, Text.lines_crlf, labels_map_trimEnd]

theorem suggest_crlf (text : Text) (line : Int) (column : Option Int) :
    suggest text.crlf line column = suggest text line column := by
  have hlength : (Text.lines text.crlf).length = (Text.lines text).length := by
    rw [← length_sourceLines, sourceLines_crlf, length_sourceLines]
  have hcurrent (n : Nat) : Text.trimEnd (· == .char '\r') ((Text.lines text.crlf).getD n []) =
      Text.trimEnd (· == .char '\r') ((Text.lines text).getD n []) := by
    have hmap (lines : List Text) : Text.trimEnd (· == .char '\r') (lines.getD n []) =
        (lines.map (Text.trimEnd (· == .char '\r'))).getD n [] := by
      simp only [List.getD_eq_getElem?_getD, List.getElem?_map]
      cases lines[n]? <;> rfl
    rw [hmap, hmap, Text.lines_crlf]
  simp only [suggest, onLine, labelItems, hlength, hcurrent, labels_crlf]

end Completion

end TeachAsm
