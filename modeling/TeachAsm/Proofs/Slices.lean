import Mathlib.Data.List.DropRight
import TeachAsm.Line

/-!
# Slices of text

Trimming, cutting and splitting take a text apart without changing it: each gives slices of the
text it is given. The views of a source line are slices of the document, therefore.
-/

namespace TeachAsm.Text

variable {α : Type}

theorem trimEnd_isPrefix (p : α → Bool) (s : List α) : trimEnd p s <+: s :=
  List.rdropWhile_prefix p s

theorem strip_isInfix (s : Text) : strip s <:+: s := by
  have htrim : strip s <+: stripLeft s := trimEnd_isPrefix isBlank (stripLeft s)
  have hleft : stripLeft s <:+ s := List.dropWhile_suffix isBlank
  exact htrim.isInfix.trans hleft.isInfix

theorem stripLeft_mono {s t : Text} (h : s <+: t) : stripLeft s <+: stripLeft t := by
  obtain ⟨rest, rfl⟩ := h
  rw [stripLeft, stripLeft, List.dropWhile_append]
  split
  · next hempty =>
      rw [List.isEmpty_iff] at hempty
      rw [hempty]
      exact List.nil_prefix
  · exact List.prefix_append _ _

private theorem beforeFirst_isPrefix [BEq α] (separator : α) (s : List α) :
    beforeFirst separator s <+: s :=
  List.takeWhile_prefix _

theorem afterLast_isSuffix [BEq α] (separator : α) (s : List α) : afterLast separator s <:+ s := by
  have h : s.reverse.takeWhile (· != separator) <+: s.reverse := List.takeWhile_prefix _
  simpa [afterLast] using List.reverse_suffix.mpr h

theorem strip_strip (s : Text) : strip (strip s) = strip s := by
  have hleft : stripLeft (strip s) = strip s := by
    rw [stripLeft, List.dropWhile_eq_self_iff]
    intro hpos
    have hpre : strip s <+: stripLeft s := trimEnd_isPrefix isBlank (stripLeft s)
    have hidem : (stripLeft s).dropWhile isBlank = stripLeft s :=
      List.dropWhile_idempotent isBlank s
    rw [hpre.getElem hpos]
    exact List.dropWhile_eq_self_iff.mp hidem (Nat.lt_of_lt_of_le hpos hpre.length_le)
  rw [strip, hleft]
  exact List.rdropWhile_idempotent isBlank (stripLeft s)

theorem beforeFirst_of_not_mem [BEq α] [LawfulBEq α] {separator : α} {s : List α}
    (h : separator ∉ s) : beforeFirst separator s = s := by
  rw [beforeFirst, List.takeWhile_eq_self_iff]
  intro c hc
  simp only [bne_iff_ne, ne_eq]
  exact fun he => h (he ▸ hc)

theorem afterLast_of_not_mem [BEq α] [LawfulBEq α] {separator : α} {s : List α}
    (h : separator ∉ s) : afterLast separator s = s := by
  have hrev : separator ∉ s.reverse := by simpa using h
  have hbefore := beforeFirst_of_not_mem hrev
  rw [beforeFirst] at hbefore
  rw [afterLast, hbefore, List.reverse_reverse]

theorem splitWhen_cons (p : α → Bool) (c : α) (cs : List α) :
    splitWhen p (c :: cs) = if p c then [] :: splitWhen p cs
      else match splitWhen p cs with
        | [] => [[c]]
        | first :: rest => (c :: first) :: rest := rfl

private theorem splitWhen_slices (p : α → Bool) (s : List α) :
    ∃ first rest, splitWhen p s = first :: rest ∧ first <+: s ∧ ∀ piece ∈ rest, piece <:+: s := by
  induction s with
  | nil => exact ⟨[], [], rfl, List.prefix_rfl, by simp⟩
  | cons c cs ih =>
      obtain ⟨first, rest, hsplit, hfirst, hrest⟩ := ih
      have hlater : ∀ piece ∈ rest, piece <:+: c :: cs := fun piece hpiece =>
        List.infix_cons (hrest piece hpiece)
      rw [splitWhen_cons, hsplit]
      by_cases hc : p c = true
      · refine ⟨[], first :: rest, by simp [hc], List.nil_prefix, ?_⟩
        intro piece hpiece
        rcases List.mem_cons.mp hpiece with rfl | hpiece
        · exact List.infix_cons hfirst.isInfix
        · exact hlater piece hpiece
      · exact ⟨c :: first, rest, by simp [hc], (List.prefix_cons_inj c).mpr hfirst, hlater⟩

private theorem splitWhen_isInfix (p : α → Bool) {s piece : List α} (h : piece ∈ splitWhen p s) :
    piece <:+: s := by
  obtain ⟨first, rest, hsplit, hfirst, hrest⟩ := splitWhen_slices p s
  rw [hsplit] at h
  rcases List.mem_cons.mp h with rfl | h
  · exact hfirst.isInfix
  · exact hrest piece h

theorem words_isInfix {s word : Text} (h : word ∈ words s) : word <:+: s :=
  splitWhen_isInfix isBlank (List.mem_filter.mp h).1

theorem occursIn_iff_isInfix [BEq α] [LawfulBEq α] (piece s : List α) :
    occursIn piece s = true ↔ piece <:+: s := by
  induction s with
  | nil => simp [occursIn]
  | cons c cs ih =>
      rw [occursIn, Bool.or_eq_true, ih, List.isPrefixOf_iff_prefix, List.infix_cons_iff]

theorem isPrefix_of_indexOf? [BEq α] [LawfulBEq α] {piece s : List α} {position : Nat}
    (h : indexOf? piece s = some position) : piece <+: s.drop position := by
  induction s generalizing position with
  | nil =>
      have hempty : piece = [] := by simpa [indexOf?] using (Option.ite_none_right_eq_some.mp h).1
      rw [hempty]
      exact List.nil_prefix
  | cons c cs ih =>
      rw [indexOf?] at h
      split at h
      · next hhere =>
          cases h
          exact List.isPrefixOf_iff_prefix.mp hhere
      · obtain ⟨n, hn, rfl⟩ := Option.map_eq_some_iff.mp h
        exact ih hn

end TeachAsm.Text

namespace TeachAsm

theorem stripComment_isPrefix (s : Text) : stripComment s <+: s := by
  unfold stripComment
  split
  · exact List.prefix_rfl
  · split
    · exact Text.beforeFirst_isPrefix _ s
    · exact List.prefix_rfl

theorem isBlankOrComment_of_isPrefix {s t : Text} (h : s <+: t) (ht : isBlankOrComment t = true) :
    isBlankOrComment s = true := by
  have hleft := Text.stripLeft_mono h
  unfold isBlankOrComment at ht ⊢
  cases hs : Text.stripLeft s with
  | nil => rfl
  | cons c rest =>
      obtain ⟨tail, htail⟩ := hleft
      rw [← htail, hs, List.cons_append] at ht
      exact ht

namespace Line

theorem isBlank_of_raw {l : Line} (h : isBlankOrComment l.raw = true) : l.isBlank = true := by
  rw [isBlank, text, stripComment, if_pos h]
  exact h

theorem stripped_isInfix (l : Line) : l.stripped <:+: l.raw :=
  (Text.strip_isInfix l.text).trans (stripComment_isPrefix l.raw).isInfix

theorem statement_isInfix (l : Line) : l.statement <:+: l.stripped :=
  (Text.strip_isInfix _).trans (Text.afterLast_isSuffix _ _).isInfix

theorem operand_isInfix (l : Line) : l.operand <:+: l.statement :=
  (Text.strip_isInfix _).trans (List.drop_suffix _ _).isInfix

theorem operandWord_isInfix (l : Line) : l.operandWord <:+: l.statement := by
  rw [operandWord, List.getD_eq_getElem?_getD]
  cases hword : l.words[1]? with
  | none => exact List.nil_infix
  | some word => exact Text.words_isInfix (List.mem_of_getElem? hword)

end Line

theorem getElem?_sourceLines_eq (text : Text) (i : Nat) : (sourceLines text)[i]? =
    (Text.lines text)[i]?.map fun piece => ⟨i, Text.trimEnd (· == '\r') piece⟩ := by
  simp only [sourceLines, List.getElem?_map, List.getElem?_zipIdx, Option.map_map, Nat.zero_add]
  rfl

theorem getElem?_sourceLines {text : Text} {i : Nat} {l : Line}
    (h : (sourceLines text)[i]? = some l) : l.index = i := by
  rw [getElem?_sourceLines_eq] at h
  obtain ⟨piece, -, rfl⟩ := Option.map_eq_some_iff.mp h
  rfl

theorem getElem?_of_mem_sourceLines {text : Text} {l : Line} (h : l ∈ sourceLines text) :
    (sourceLines text)[l.index]? = some l := by
  obtain ⟨i, hi⟩ := List.getElem?_of_mem h
  rw [getElem?_sourceLines hi]
  exact hi

theorem eq_of_index_eq {text : Text} {l l' : Line} (h : l ∈ sourceLines text)
    (h' : l' ∈ sourceLines text) (hindex : l.index = l'.index) : l = l' := by
  have hline := getElem?_of_mem_sourceLines h
  rw [hindex, getElem?_of_mem_sourceLines h', Option.some.injEq] at hline
  exact hline.symm

theorem pairwise_index_sourceLines (text : Text) :
    (sourceLines text).Pairwise (·.index < ·.index) := by
  rw [List.pairwise_iff_getElem]
  intro i j hi hj hij
  rw [getElem?_sourceLines (List.getElem?_eq_getElem hi),
    getElem?_sourceLines (List.getElem?_eq_getElem hj)]
  exact hij

theorem raw_isInfix {text : Text} {l : Line} (h : l ∈ sourceLines text) : l.raw <:+: text := by
  simp only [sourceLines, List.mem_map] at h
  obtain ⟨⟨piece, i⟩, hpiece, rfl⟩ := h
  have hmem : piece ∈ Text.lines text := List.fst_mem_of_mem_zipIdx hpiece
  exact (Text.trimEnd_isPrefix _ piece).isInfix.trans (Text.splitWhen_isInfix _ hmem)

end TeachAsm
