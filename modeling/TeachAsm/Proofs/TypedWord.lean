import Mathlib.Data.List.DropRight
import TeachAsm.Completion
import TeachAsm.Proofs.Spacing

/-!
# The word that is typed

Keywords are offered for the word that ends at a cursor, and labels for an operand that stands on
the line wherever the cursor is. So typing on inside a word takes keywords away and leaves the
labels, and what is still offered contains the word so far.
-/

namespace TeachAsm

namespace Text

private theorem rtakeWhile_append {α : Type} {p : α → Bool} (s : List α) {t : List α}
    (h : ∀ c ∈ t, p c = true) : (s ++ t).rtakeWhile p = s.rtakeWhile p ++ t := by
  have hreverse : ∀ c ∈ t.reverse, p c = true := fun c hc => h c (List.mem_reverse.mp hc)
  simp [List.rtakeWhile, List.takeWhile_append_of_pos hreverse]

private theorem afterLast_append_of_not_mem {α : Type} [BEq α] [LawfulBEq α] {separator : α}
    (s : List α) {t : List α} (h : separator ∉ t) :
    afterLast separator (s ++ t) = afterLast separator s ++ t := by
  apply rtakeWhile_append
  intro c hc
  simp only [bne_iff_ne, ne_eq]
  exact fun he => h (he ▸ hc)

end Text

def endsWord (c : CodePoint) : Bool := Text.isBlank c || c == labelSeparator

private theorem endsWord_eq_false_iff (c : CodePoint) :
    endsWord c = false ↔ Text.isBlank c = false ∧ c ≠ labelSeparator := by
  simp [endsWord]

namespace Completion

/-- The longest run of characters before a cursor that end no word. -/
def wordBefore (before : Text) : Text := before.rtakeWhile (fun c => !endsWord c)

private theorem wordBefore_append (before : Text) {more : Text}
    (h : ∀ c ∈ more, endsWord c = false) :
    wordBefore (before ++ more) = wordBefore before ++ more :=
  Text.rtakeWhile_append before fun c hc => by simp [h c hc]

private theorem wordBefore_of_endsWord {before : Text} {c : CodePoint}
    (h : before.getLast? = some c) (hc : endsWord c = true) : wordBefore before = [] := by
  obtain ⟨front, rfl⟩ := List.getLast?_eq_some_iff.mp h
  exact List.rtakeWhile_concat_neg _ _ _ (by simp [hc])

/-- What stands in front of the word before a cursor ends another one. -/
private theorem eq_wordBefore_or (before : Text) : before = wordBefore before ∨
    ∃ front b, before = front ++ b :: wordBefore before ∧ endsWord b = true := by
  have hsplit := List.rdropWhile_append_rtakeWhile (p := fun c => !endsWord c) (l := before)
  rcases List.eq_nil_or_concat (before.rdropWhile (fun c => !endsWord c)) with hnil | ⟨front, b, hb⟩
  · rw [hnil, List.nil_append] at hsplit
    exact .inl hsplit.symm
  · have hlast := List.rdropWhile_last_not (fun c => !endsWord c) before (by simp [hb])
    refine .inr ⟨front, b, ?_, by simpa [hb] using hlast⟩
    rw [hb, List.concat_eq_append, List.append_assoc] at hsplit
    exact hsplit.symm

private theorem getLast?_statementWords {before word : Text} (hword : Text.IsWord word)
    (hseparator : labelSeparator ∉ word)
    (h : before = word ∨ ∃ front b, before = front ++ b :: word ∧ endsWord b = true) :
    (statementWords before).getLast? = some word := by
  have hsingle : (Text.words word).getLast? = some word := by
    rw [Text.words_of_isWord hword]
    rfl
  rcases h with rfl | ⟨front, b, rfl, hb⟩
  · rw [statementWords, Text.afterLast_of_not_mem hseparator]
    exact hsingle
  · by_cases hcut : b = labelSeparator
    · rw [statementWords, hcut, Text.afterLast_append hseparator]
      exact hsingle
    · have hblank : Text.isBlank b = true := by simpa [endsWord, hcut] using hb
      have hfree : labelSeparator ∉ b :: word := by
        rw [List.mem_cons, not_or]
        exact ⟨Ne.symm hcut, hseparator⟩
      rw [statementWords, Text.afterLast_append_of_not_mem front hfree,
        Text.getLast?_words_append hblank _ hword.solid]
      exact hsingle

private theorem typedWord_of_not_endsWord {before : Text} {c : CodePoint}
    (h : before.getLast? = some c) (hc : endsWord c = false) :
    typedWord before = wordBefore before := by
  have hspace : ¬ (c = ' ' ∨ c = '\t' ∨ c = labelSeparator) := by
    rintro (rfl | rfl | rfl) <;> exact absurd hc (by decide)
  have hclean (d : CodePoint) (hd : d ∈ wordBefore before) : endsWord d = false := by
    simpa using List.mem_rtakeWhile_imp hd
  have hword : Text.IsWord (wordBefore before) := by
    refine ⟨?_, fun d hd => ((endsWord_eq_false_iff d).mp (hclean d hd)).1⟩
    obtain ⟨front, rfl⟩ := List.getLast?_eq_some_iff.mp h
    rw [wordBefore, List.rtakeWhile_concat_pos _ _ _ (by simp [hc])]
    simp
  have hseparator : labelSeparator ∉ wordBefore before := fun hmem =>
    ((endsWord_eq_false_iff _).mp (hclean _ hmem)).2 rfl
  have hlast := getLast?_statementWords hword hseparator (eq_wordBefore_or before)
  rw [typedWord, h]
  dsimp only
  rw [if_neg hspace, hlast, Option.getD_some]

/-- After a space, a tab and a separator no word is typed. After another blank the typed word is the
last one before it, though none ends there. -/
private theorem typedWord_eq_wordBefore {before : Text}
    (h : ∀ c, before.getLast? = some c → Text.isBlank c = true → c = ' ' ∨ c = '\t') :
    typedWord before = wordBefore before := by
  cases hlast : before.getLast? with
  | none =>
      obtain rfl := List.getLast?_eq_none_iff.mp hlast
      rfl
  | some c =>
      cases hc : endsWord c with
      | false => exact typedWord_of_not_endsWord hlast hc
      | true =>
          have hspace : c = ' ' ∨ c = '\t' ∨ c = labelSeparator := by
            rw [endsWord, Bool.or_eq_true, beq_iff_eq] at hc
            rw [← or_assoc]
            exact hc.imp_left (h c hlast)
          rw [typedWord, hlast, wordBefore_of_endsWord hlast hc]
          dsimp only
          rw [if_pos hspace]

private theorem wordBefore_isInfix_typedWord (before : Text) :
    wordBefore before <:+: typedWord before := by
  cases hlast : before.getLast? with
  | none =>
      obtain rfl := List.getLast?_eq_none_iff.mp hlast
      exact List.nil_infix
  | some c =>
      cases hc : endsWord c with
      | false => exact typedWord_of_not_endsWord hlast hc ▸ List.infix_rfl
      | true =>
          rw [wordBefore_of_endsWord hlast hc]
          exact List.nil_infix

private theorem kind_of_mem_vocabulary {item : Completion} (h : item ∈ vocabulary) :
    item.kind = .keyword := by
  rcases List.mem_append.mp h with h | h
  · obtain ⟨m, -, rfl⟩ := List.mem_map.mp h
    rfl
  · rw [List.mem_singleton.mp h]

private theorem kind_of_mem_keywordItems {before : Text} {item : Completion}
    (h : item ∈ keywordItems before) : item.kind = .keyword :=
  kind_of_mem_vocabulary (List.mem_filter.mp h).1

theorem kind_of_mem_labelItems {lines : List Text} {current : Text} {item : Completion}
    (h : item ∈ labelItems lines current) : item.kind = .label := by
  rw [labelItems] at h
  split at h
  · obtain ⟨word, -, rfl⟩ := List.mem_map.mp h
    rfl
  · cases h

/-- A keyword is offered for the word that ends at the cursor, at least. -/
private theorem wordBefore_isInfix_of_mem {before : Text} {item : Completion}
    (h : item ∈ keywordItems before) : wordBefore before <:+: item.word :=
  (wordBefore_isInfix_typedWord before).trans
    ((Text.occursIn_iff_isInfix _ _).mp (List.mem_filter.mp h).2)

private theorem keywordItems_sublist {before before' : Text}
    (h : typedWord before <:+: typedWord before') :
    (keywordItems before').Sublist (keywordItems before) := by
  apply List.monotone_filter_right
  intro item hitem
  rw [Text.occursIn_iff_isInfix] at hitem ⊢
  exact h.trans hitem

private theorem keywordItems_append_sublist {before more : Text}
    (hbefore : ∀ c, before.getLast? = some c → Text.isBlank c = true → c = ' ' ∨ c = '\t')
    (hmore : ∀ c ∈ more, endsWord c = false) :
    (keywordItems (before ++ more)).Sublist (keywordItems before) := by
  apply keywordItems_sublist
  rw [typedWord_eq_wordBefore hbefore]
  have hstart : wordBefore before <:+: wordBefore (before ++ more) := by
    rw [wordBefore_append before hmore]
    exact (List.prefix_append _ _).isInfix
  exact hstart.trans (wordBefore_isInfix_typedWord _)

theorem suggest_of_line {text piece : Text} {line : Nat}
    (h : (Text.lines text)[line]? = some piece) (column : Option Int) :
    suggest text line column =
      labelItems (Text.lines text) (Text.trimEnd (· == '\r') piece) ++
        keywordItems (upTo column (Text.trimEnd (· == '\r') piece)) := by
  obtain ⟨hlt, hpiece⟩ := List.getElem?_eq_some_iff.mp h
  have hrange : (0 : Int) ≤ line ∧ (line : Int) < (Text.lines text).length := by omega
  rw [suggest, if_pos hrange, Int.toNat_natCast, List.getD_eq_getElem?_getD, h]
  rfl

private theorem upTo_natCast (column : Nat) (line : Text) :
    upTo (some (column : Int)) line = line.take column := by
  simp [upTo]

private theorem take_of_lt {current : Text} {first last : Nat} (h : first < last) :
    current.take last = current.take first ++ (current.take last).drop first := by
  have hsplit := (List.take_append_drop first (current.take last)).symm
  rwa [List.take_take, Nat.min_eq_left (Nat.le_of_lt h)] at hsplit

private theorem filter_label_suggest {text piece : Text} {line : Nat}
    (h : (Text.lines text)[line]? = some piece) (column : Option Int) :
    (suggest text line column).filter (fun item => item.kind = .label) =
      labelItems (Text.lines text) (Text.trimEnd (· == '\r') piece) := by
  have hlabels : (labelItems (Text.lines text) (Text.trimEnd (· == '\r') piece)).filter
      (fun item => item.kind = .label) =
        labelItems (Text.lines text) (Text.trimEnd (· == '\r') piece) := by
    rw [List.filter_eq_self]
    intro item hitem
    simp [kind_of_mem_labelItems hitem]
  have hkeywords : (keywordItems (upTo column (Text.trimEnd (· == '\r') piece))).filter
      (fun item => item.kind = .label) = [] := by
    rw [List.filter_eq_nil_iff]
    intro item hitem
    simp [kind_of_mem_keywordItems hitem]
  rw [suggest_of_line h, List.filter_append, hlabels, hkeywords, List.append_nil]

/-- Moving the cursor forward over characters that are neither blank nor a separator leaves the
labels that are offered and takes away keywords, in a document and on a line of any form, unless the
cursor comes from behind a blank other than a space or a tab. A keyword that is offered contains
the word that ends at the cursor. -/
theorem typing_narrows {text piece : Text} {line : Nat}
    (hline : (Text.lines text)[line]? = some piece) :
    let current : Text := Text.trimEnd (· == .char '\r') piece
    (∀ first last : Nat, first < last →
      (∀ c ∈ (current.take last).drop first, Text.isBlank c = false ∧ c ≠ labelSeparator) →
      (∀ c, 0 < first → current[first - 1]? = some c → Text.isBlank c = true →
        c = ' ' ∨ c = '\t') →
      (suggest text line (some last)).Sublist (suggest text line (some first)) ∧
        (suggest text line (some last)).filter (fun item => item.kind = .label) =
          (suggest text line (some first)).filter (fun item => item.kind = .label)) ∧
    ∀ column, ∀ item ∈ suggest text line column, item.kind = .keyword →
      wordBefore (upTo column current) <:+: item.word := by
  intro current
  refine ⟨?_, ?_⟩
  · intro first last hlt htyped hbefore
    refine ⟨?_, by rw [filter_label_suggest hline, filter_label_suggest hline]⟩
    rw [suggest_of_line hline, suggest_of_line hline, upTo_natCast, upTo_natCast]
    refine List.Sublist.append_left ?_ _
    rcases Nat.lt_or_ge current.length first with hpast | hfits
    · -- behind the end of the line the cursor has the whole line before it
      have hwhole {n : Nat} (hn : first ≤ n) : current.take n = current :=
        List.take_of_length_le (Nat.le_of_lt (Nat.lt_of_lt_of_le hpast hn))
      rw [hwhole (Nat.le_refl first), hwhole (Nat.le_of_lt hlt)]
    · have hmore : ∀ c ∈ (current.take last).drop first, endsWord c = false :=
        fun c hc => (endsWord_eq_false_iff c).mpr (htyped c hc)
      rw [take_of_lt hlt]
      apply keywordItems_append_sublist _ hmore
      intro c hc
      cases first with
      | zero =>
          rw [List.take_zero] at hc
          cases hc
      | succ n =>
          have hlast : (current.take (n + 1)).getLast? = current[n]? := by
            rw [List.getLast?_take]
            simp [List.getElem?_eq_getElem hfits]
          exact hbefore c (Nat.succ_pos n) (hlast ▸ hc)
  · intro column item hitem hkeyword
    rw [suggest_of_line hline] at hitem
    rcases List.mem_append.mp hitem with hlabel | hitem
    · rw [kind_of_mem_labelItems hlabel] at hkeyword
      cases hkeyword
    · exact wordBefore_isInfix_of_mem hitem

/-- With `LD` before the cursor fewer keywords are offered than with `L`, and the same label. -/
theorem typing_narrows_mnemonic :
    let text : Text := .ofString "FOO, DEC 5\n LDA FO\r"
    (Text.lines text)[1]? = some (.ofString " LDA FO\r") ∧
    (suggest text (1 : Nat) (some (3 : Nat))).map Completion.word =
      [.ofString "FOO", .ofString "LDA"] ∧
    (suggest text (1 : Nat) (some (2 : Nat))).length = 6 ∧
    (suggest text (1 : Nat) (some (3 : Nat))).Sublist
      (suggest text (1 : Nat) (some (2 : Nat))) := by
  intro text
  have hline : (Text.lines text)[1]? = some (.ofString " LDA FO\r") := by decide
  have hbefore : (Text.trimEnd (· == .char '\r') (Text.ofString " LDA FO\r"))[2 - 1]? =
      some (.char 'L') := by decide
  refine ⟨hline, by decide +kernel, by decide +kernel, ?_⟩
  refine ((typing_narrows hline).1 2 3 (by decide) (by decide) ?_).1
  intro c _ hc hblank
  rw [hbefore, Option.some.injEq] at hc
  exact absurd (hc ▸ hblank) (by decide)

end Completion

end TeachAsm
