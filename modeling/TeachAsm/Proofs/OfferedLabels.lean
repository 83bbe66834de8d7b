import TeachAsm.Proofs.Declarations
import TeachAsm.Proofs.TypedWord

/-!
# Labels that are offered

The label walk reads a line without its comment and takes the first word before the first separator.
Completion reads the whole line, comments and all, and takes everything before the first separator.
Both find what is declared: a separator that is left when the comment is cut off is the first one of
the whole line, and what stands before it is the same.
-/

namespace TeachAsm

namespace Text

private theorem beforeFirst_of_isPrefix {α : Type} [BEq α] [LawfulBEq α] {separator : α}
    {s t : List α} (h : s <+: t) (hmem : separator ∈ s) :
    beforeFirst separator t = beforeFirst separator s := by
  obtain ⟨front, back, rfl, hnot⟩ := List.eq_append_cons_of_mem hmem
  obtain ⟨rest, rfl⟩ := h
  rw [List.append_assoc, List.cons_append, beforeFirst_append hnot, beforeFirst_append hnot]

private theorem beforeFirst_strip {separator : CodePoint} (hblank : isBlank separator = false)
    {s : Text} (hmem : separator ∈ s) :
    beforeFirst separator (strip s) = stripLeft (beforeFirst separator s) := by
  obtain ⟨front, back, rfl, hnot⟩ := List.eq_append_cons_of_mem hmem
  have hleft : separator ∉ stripLeft front := fun hin =>
    hnot ((List.dropWhile_suffix _).subset hin)
  rw [strip_append_cons hblank, beforeFirst_append hleft, beforeFirst_append hnot]

private theorem strip_eq_of_words {s word : Text} (h : words s = [word]) : strip s = word := by
  rw [← words_strip] at h
  rcases strip_eq_nil_or_solid s with hnil | hsolid
  · rw [hnil] at h
    cases h
  · have hspaced := hsolid.spaced_words
    rw [h] at hspaced
    generalize strip s = t at hspaced
    cases hspaced with
    | last isWord => rfl
    | more _ _ _ nothing => cases nothing

end Text

private theorem Line.label_of_hasLabel {l : Line} (h : l.hasLabel = true) :
    l.label = (Text.words (Text.beforeFirst labelSeparator l.raw)).headD [] := by
  have hmem : labelSeparator ∈ l.text := by simpa [hasLabel] using h
  rw [label, stripped, Text.beforeFirst_strip (by decide) hmem, Text.words_stripLeft,
    Text.beforeFirst_of_isPrefix l.text_isPrefix_raw hmem]

namespace Completion

/-- What completion takes for a label of a line with a separator. -/
private theorem strip_beforeFirst_mem_labels {lines : List Text} {piece : Text} (h : piece ∈ lines)
    (hmem : labelSeparator ∈ piece) :
    Text.strip (Text.beforeFirst labelSeparator piece) ∈ labels lines := by
  have hblank : Text.isBlank labelSeparator = false := by decide
  rw [labels, List.mem_filterMap]
  refine ⟨piece, h, ?_⟩
  rw [if_pos (by simpa using Text.mem_strip hblank hmem), Text.beforeFirst_strip hblank hmem,
    Text.strip_stripLeft]

private theorem exists_entry_of_declares {text label : Text} {d : Declaration} {l : Line}
    (h : Declares (sourceLines text) label d) (hl : (sourceLines text)[d.line]? = some l) :
    Text.strip (Text.beforeFirst labelSeparator l.raw) ∈ labels (Text.lines text) ∧
      (Text.words (Text.beforeFirst labelSeparator l.raw)).headD [] = label := by
  obtain ⟨l', hl', -, hlabelled, hlabel⟩ := h.named
  obtain rfl : l = l' := Option.some.inj (hl.symm.trans hl')
  refine ⟨?_, (Line.label_of_hasLabel hlabelled).symm.trans hlabel⟩
  rw [getElem?_sourceLines_eq, Option.map_eq_some_iff] at hl
  obtain ⟨piece, hpiece, rfl⟩ := hl
  have hstart : Text.trimEnd (· == .char '\r') piece <+: piece := Text.trimEnd_isPrefix _ _
  have hmem : labelSeparator ∈ Text.trimEnd (· == .char '\r') piece :=
    (Line.text_isPrefix_raw _).mem (by simpa [Line.hasLabel] using hlabelled)
  rw [← Text.beforeFirst_of_isPrefix hstart hmem]
  exact strip_beforeFirst_mem_labels (List.mem_of_getElem? hpiece) (hstart.mem hmem)

private theorem ofLabel_mem_labelItems {lines : List Text} {current operand label : Text}
    (hlabel : label ∈ labels lines) (hwritten : (statementWords current)[1]? = some operand)
    (hin : operand <:+: label) : ofLabel label ∈ labelItems lines current := by
  rw [labelItems, hwritten]
  apply List.mem_map_of_mem
  exact List.mem_filter.mpr ⟨hlabel, (Text.occursIn_iff_isInfix _ _).mpr hin⟩

private theorem exists_label_before_keywords {text piece : Text} {line : Nat}
    (hline : (Text.lines text)[line]? = some piece) (column : Option Int) {item : Completion}
    (h : item ∈ labelItems (Text.lines text) (Text.trimEnd (· == '\r') piece)) :
    ∃ i : Nat, (suggest text line column)[i]? = some item ∧ ∀ (j : Nat) (other : Completion),
      (suggest text line column)[j]? = some other → other.kind = .keyword → i < j := by
  obtain ⟨i, hi⟩ := List.getElem?_of_mem h
  have hlt := (List.getElem?_eq_some_iff.mp hi).1
  rw [suggest_of_line hline]
  refine ⟨i, (List.getElem?_append_left hlt).trans hi, ?_⟩
  intro j other hother hkeyword
  by_contra hnot
  have hj : j < (labelItems (Text.lines text) (Text.trimEnd (· == '\r') piece)).length := by omega
  rw [List.getElem?_append_left hj] at hother
  rw [kind_of_mem_labelItems (List.mem_of_getElem? hother)] at hkeyword
  cases hkeyword

/-- Completion knows each label that the label walk binds: among its labels one has it as its first
word. The label itself is there if a line that declares it has no other word before its first
separator, and then it is offered on every line whose statement has a second word that occurs in
it, wherever the cursor is, before all keywords. -/
theorem resolved_labels_offered {text label : Text}
    (h : label ∈ (resolve (sourceLines text)).symbols.keys) :
    (∃ entry ∈ labels (Text.lines text), (Text.words entry).head? = some label) ∧
    ((∃ d l, Declares (sourceLines text) label d ∧ (sourceLines text)[d.line]? = some l ∧
        Text.words (Text.beforeFirst labelSeparator l.raw) = [label]) →
      label ∈ labels (Text.lines text) ∧
      ∀ (line : Nat) (piece operand : Text) (column : Option Int),
        (Text.lines text)[line]? = some piece →
        (statementWords (Text.trimEnd (· == '\r') piece))[1]? = some operand →
        operand <:+: label →
        ∃ i : Nat, (suggest text line column)[i]? = some (ofLabel label) ∧
          ∀ (j : Nat) (item : Completion), (suggest text line column)[j]? = some item →
            item.kind = .keyword → i < j) := by
  refine ⟨?_, ?_⟩
  · rw [resolve_eq, Bindings.keys_symbols_tables,
      Table.mem_keys_iff_of_latest (records_bindings text).labels fun d hd =>
        lt_length_of_getElem? hd.named] at h
    obtain ⟨d, hd⟩ := h
    obtain ⟨l, hl, -⟩ := hd.named
    obtain ⟨hentry, hhead⟩ := exists_entry_of_declares hd hl
    refine ⟨_, hentry, ?_⟩
    rw [Text.words_strip]
    cases hwords : Text.words (Text.beforeFirst labelSeparator l.raw) with
    | nil =>
        rw [hwords, List.headD_nil] at hhead
        have hvalid := hd.valid
        rw [← hhead] at hvalid
        exact absurd hvalid (by decide)
    | cons first rest =>
        rw [hwords, List.headD_cons] at hhead
        rw [hhead, List.head?_cons]
  · rintro ⟨d, l, hd, hl, hwords⟩
    obtain ⟨hentry, -⟩ := exists_entry_of_declares hd hl
    rw [Text.strip_eq_of_words hwords] at hentry
    refine ⟨hentry, ?_⟩
    intro line piece operand column hline hwritten hin
    exact exists_label_before_keywords hline column (ofLabel_mem_labelItems hentry hwritten hin)

/-- The line that declares `FOO` has another separator in its comment, and the line on which it is
offered ends with a carriage return. -/
theorem resolved_labels_offered_comment :
    let text : Text := .ofString "FOO, DEC 5 / a, b\n LDA OO\r"
    let offered := suggest text (1 : Nat) (some 2)
    .ofString "FOO" ∈ (resolve (sourceLines text)).symbols.keys ∧
    .ofString "FOO" ∈ labels (Text.lines text) ∧
    ∃ i : Nat, offered[i]? = some (ofLabel (.ofString "FOO")) ∧ ∀ (j : Nat) (item : Completion),
      offered[j]? = some item → item.kind = .keyword → i < j := by
  intro text offered
  have hkey : .ofString "FOO" ∈ (resolve (sourceLines text)).symbols.keys := by decide +kernel
  let l : Line := ⟨0, .ofString "FOO, DEC 5 / a, b"⟩
  have hl : (sourceLines text)[0]? = some l := by decide +kernel
  have hdeclares : Declares (sourceLines text) (.ofString "FOO") ⟨0, 0⟩ :=
    ⟨by decide +kernel, ⟨l, hl, by decide, by decide, by decide⟩, by decide⟩
  obtain ⟨hmem, hoffered⟩ :=
    (resolved_labels_offered hkey).2 ⟨⟨0, 0⟩, l, hdeclares, hl, by decide⟩
  have hline : (Text.lines text)[1]? = some (.ofString " LDA OO\r") := by decide
  have hwritten : (statementWords (Text.trimEnd (· == '\r') (Text.ofString " LDA OO\r")))[1]? =
      some (Text.ofString "OO") := by decide
  have hin : Text.ofString "OO" <:+: Text.ofString "FOO" := by decide
  exact ⟨hkey, hmem, hoffered 1 _ _ (some 2) hline hwritten hin⟩

end Completion

end TeachAsm
