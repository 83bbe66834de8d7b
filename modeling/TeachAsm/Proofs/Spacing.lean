import TeachAsm.Proofs.Slices

/-!
# Words between blanks

A text that is written as words with blanks between and around them is cut into these words again.
How many blanks stand between two words, and which ones, has no bearing.
-/

namespace TeachAsm

namespace Text

variable {α : Type}

def Blanks (s : Text) : Prop := ∀ c ∈ s, isBlank c = true

def IsWord (s : Text) : Prop := s ≠ [] ∧ ∀ c ∈ s, isBlank c = false

instance (s : Text) : Decidable (Blanks s) :=
  inferInstanceAs (Decidable (∀ c ∈ s, isBlank c = true))

instance (s : Text) : Decidable (IsWord s) :=
  inferInstanceAs (Decidable (s ≠ [] ∧ ∀ c ∈ s, isBlank c = false))

/-- The text has a first and a last character, and neither is blank. -/
def Solid (s : Text) : Prop :=
  (∃ c rest, s = c :: rest ∧ isBlank c = false) ∧ ∃ rest c, s = rest ++ [c] ∧ isBlank c = false

/-- The words in order, with one or more blanks between two of them. -/
inductive Spaced : List Text → Text → Prop
  | last {word : Text} (isWord : IsWord word) : Spaced [word] word
  | more {word gap rest : Text} {words : List Text} (isWord : IsWord word) (separated : gap ≠ [])
      (blanks : Blanks gap) (spaced : Spaced words rest) :
      Spaced (word :: words) (word ++ (gap ++ rest))

theorem blanks_nil : Blanks [] := by
  intro c hc
  cases hc

theorem IsWord.solid {s : Text} (h : IsWord s) : Solid s := by
  refine ⟨?_, ?_⟩
  · obtain ⟨c, rest, hs⟩ := List.exists_cons_of_ne_nil h.1
    exact ⟨c, rest, hs, h.2 c (hs ▸ List.mem_cons_self)⟩
  · obtain ⟨rest, c, hs⟩ := List.eq_nil_or_concat s |>.resolve_left h.1
    have hc : c ∈ s := by simp [hs]
    exact ⟨rest, c, by simpa using hs, h.2 c hc⟩

theorem Solid.of_append {s t : Text} (hs : Solid s) (ht : Solid t) (middle : Text) :
    Solid (s ++ (middle ++ t)) := by
  obtain ⟨⟨c, rest, rfl, hc⟩, -⟩ := hs
  obtain ⟨-, front, d, rfl, hd⟩ := ht
  exact ⟨⟨c, _, rfl, hc⟩, c :: rest ++ (middle ++ front), d, by simp, hd⟩

theorem Spaced.solid {words : List Text} {s : Text} (h : Spaced words s) : Solid s := by
  induction h with
  | last isWord => exact isWord.solid
  | more isWord _ _ _ ih => exact isWord.solid.of_append ih _

theorem trimEnd_append {p : α → Bool} (s : List α) {tail : List α} (h : ∀ c ∈ tail, p c = true) :
    trimEnd p (s ++ tail) = trimEnd p s := by
  have hreverse : ∀ c ∈ tail.reverse, p c = true := fun c hc => h c (List.mem_reverse.mp hc)
  rw [trimEnd, List.reverse_append, List.dropWhile_append_of_pos hreverse]
  rfl

theorem trimEnd_concat {p : α → Bool} (s : List α) {c : α} (h : p c = false) :
    trimEnd p (s ++ [c]) = s ++ [c] := by
  simp [trimEnd, h]

theorem stripLeft_append {indent : Text} (h : Blanks indent) (s : Text) :
    stripLeft (indent ++ s) = stripLeft s :=
  List.dropWhile_append_of_pos h

theorem Solid.stripLeft_eq {s : Text} (h : Solid s) (tail : Text) :
    stripLeft (s ++ tail) = s ++ tail := by
  obtain ⟨⟨c, rest, rfl, hc⟩, -⟩ := h
  simp [stripLeft, hc]

/-- Blanks around a text that neither starts nor ends with one are stripped, and no more. -/
theorem Solid.strip_eq {s indent tail : Text} (h : Solid s) (hindent : Blanks indent)
    (htail : Blanks tail) : strip (indent ++ (s ++ tail)) = s := by
  rw [strip, stripLeft_append hindent, h.stripLeft_eq, trimEnd_append _ htail]
  obtain ⟨-, rest, c, rfl, hc⟩ := h
  exact trimEnd_concat rest hc

theorem splitWhen_of_clean {p : α → Bool} {s : List α} (h : ∀ c ∈ s, p c = false) :
    splitWhen p s = [s] := by
  induction s with
  | nil => rfl
  | cons c cs ih =>
      have hc := h c List.mem_cons_self
      rw [splitWhen_cons, ih fun d hd => h d (List.mem_cons_of_mem _ hd), hc]
      rfl

theorem splitWhen_append {p : α → Bool} {s : List α} (h : ∀ c ∈ s, p c = false) {c : α}
    (hc : p c = true) (rest : List α) : splitWhen p (s ++ c :: rest) = s :: splitWhen p rest := by
  induction s with
  | nil => simp [splitWhen_cons, hc]
  | cons d ds ih =>
      have hd := h d List.mem_cons_self
      rw [List.cons_append, splitWhen_cons, ih fun e he => h e (List.mem_cons_of_mem _ he), hd]
      rfl

private theorem words_blank {c : CodePoint} (h : isBlank c = true) (s : Text) :
    words (c :: s) = words s := by
  simp [words, splitWhen_cons, h]

private theorem words_blanks {gap : Text} (h : Blanks gap) (s : Text) :
    words (gap ++ s) = words s := by
  induction gap with
  | nil => rfl
  | cons c gap ih =>
      rw [List.cons_append, words_blank (h c List.mem_cons_self)]
      exact ih fun d hd => h d (List.mem_cons_of_mem _ hd)

theorem words_of_isWord {word : Text} (h : IsWord word) : words word = [word] := by
  simp [words, splitWhen_of_clean h.2, h.1]

theorem words_append {word gap : Text} (h : IsWord word) (hne : gap ≠ []) (hgap : Blanks gap)
    (s : Text) : words (word ++ (gap ++ s)) = word :: words s := by
  obtain ⟨c, rest, rfl⟩ := List.exists_cons_of_ne_nil hne
  have hrest : words (rest ++ s) = words s :=
    words_blanks (fun d hd => hgap d (List.mem_cons_of_mem _ hd)) s
  rw [← hrest, words, List.cons_append, splitWhen_append h.2 (hgap c List.mem_cons_self)]
  simp [words, h.1]

/-- Words that are written with blanks between them are the words of the text. -/
theorem Spaced.words_eq {words : List Text} {s : Text} (h : Spaced words s) :
    Text.words s = words := by
  induction h with
  | last isWord => exact words_of_isWord isWord
  | more isWord separated blanks _ ih => rw [words_append isWord separated blanks, ih]

theorem Spaced.exists_tail {word s : Text} {words : List Text} (h : Spaced (word :: words) s) :
    ∃ tail, s = word ++ tail ∧ ∀ c ∈ tail.head?, isBlank c = true := by
  cases h with
  | last isWord => exact ⟨[], (List.append_nil _).symm, by simp⟩
  | more isWord separated blanks spaced =>
      refine ⟨_, rfl, ?_⟩
      obtain ⟨c, gap, rfl⟩ := List.exists_cons_of_ne_nil separated
      simpa using blanks c List.mem_cons_self

theorem spaced_intercalate {first : Text} {rest : List Text}
    (h : ∀ word ∈ first :: rest, IsWord word) :
    Spaced (first :: rest) (List.intercalate [.char ' '] (first :: rest)) := by
  induction rest generalizing first with
  | nil => simpa [List.intercalate] using Spaced.last (h first List.mem_cons_self)
  | cons second rest ih =>
      have hrest := ih fun word hword => h word (List.mem_cons_of_mem _ hword)
      have hgap : Blanks [.char ' '] := by decide
      have hspaced := Spaced.more (h first List.mem_cons_self) (by simp) hgap hrest
      simpa [List.intercalate] using hspaced

theorem head_dropWhile {p : α → Bool} {s rest : List α} {c : α} (h : s.dropWhile p = c :: rest) :
    p c = false := by
  have hfirst := List.dropWhile_get_zero_not p s (by rw [h]; exact Nat.succ_pos _)
  simpa [h] using hfirst

theorem strip_eq_nil_or_solid (s : Text) : strip s = [] ∨ Solid (strip s) := by
  cases hreverse : (stripLeft s).reverse.dropWhile isBlank with
  | nil => exact .inl (by rw [strip, trimEnd, hreverse, List.reverse_nil])
  | cons d front =>
      have hstrip : strip s = front.reverse ++ [d] := by
        rw [strip, trimEnd, hreverse, List.reverse_cons]
      refine .inr ⟨?_, front.reverse, d, hstrip, head_dropWhile hreverse⟩
      obtain ⟨c, rest, hcons⟩ := List.exists_cons_of_ne_nil (by simp [hstrip] : strip s ≠ [])
      have hprefix : strip s <+: stripLeft s := trimEnd_isPrefix isBlank (stripLeft s)
      obtain ⟨tail, htail⟩ := hprefix
      rw [hcons, List.cons_append] at htail
      exact ⟨c, rest, hcons, head_dropWhile htail.symm⟩

theorem Solid.exists_last {s t : Text} (h : Solid s) (ht : t <:+ s) (hne : t ≠ []) :
    ∃ front d, t = front ++ [d] ∧ isBlank d = false := by
  obtain ⟨-, front, d, rfl, hd⟩ := h
  rcases List.suffix_concat_iff.mp ht with rfl | ⟨front, rfl, -⟩
  · exact absurd rfl hne
  · exact ⟨front, d, rfl, hd⟩

private theorem Solid.exists_first_word {s : Text} (h : Solid s) :
    IsWord s ∨ ∃ word gap rest, s = word ++ (gap ++ rest) ∧ IsWord word ∧ gap ≠ [] ∧ Blanks gap ∧
      Solid rest := by
  obtain ⟨c, cs, hcons, hc⟩ := h.1
  have hword : IsWord (s.takeWhile fun c => !isBlank c) := by
    refine ⟨by simp [hcons, hc], ?_⟩
    intro d hd
    simpa using List.mem_takeWhile_imp hd
  have hsplit := List.takeWhile_append_dropWhile (p := fun c => !isBlank c) (l := s)
  cases hafter : s.dropWhile (fun c => !isBlank c) with
  | nil =>
      rw [hafter, List.append_nil] at hsplit
      exact .inl (hsplit ▸ hword)
  | cons b after =>
      have hb : isBlank b = true := by simpa using head_dropWhile hafter
      have hsuffix : b :: after <:+ s := hafter ▸ List.dropWhile_suffix _
      have hgap := List.takeWhile_append_dropWhile (p := isBlank) (l := b :: after)
      cases hrest : (b :: after).dropWhile isBlank with
      | nil =>
          -- the last character is not blank, so something stands behind the gap
          obtain ⟨front, d, hd, hblank⟩ := h.exists_last hsuffix (by simp)
          have hall := List.dropWhile_eq_nil_iff.mp hrest d (by simp [hd])
          rw [hblank] at hall
          cases hall
      | cons d rest =>
          have htail : d :: rest <:+ b :: after := hrest ▸ List.dropWhile_suffix _
          refine .inr ⟨_, (b :: after).takeWhile isBlank, d :: rest, ?_, hword, ?_,
            fun _ => List.mem_takeWhile_imp,
            ⟨d, rest, rfl, head_dropWhile hrest⟩, h.exists_last (htail.trans hsuffix) (by simp)⟩
          · rw [← hrest, hgap, ← hafter, hsplit]
          · simp [hb]

/-- A text without blanks around it is its words with blanks between them. -/
theorem Solid.spaced_words {s : Text} (h : Solid s) : Spaced (words s) s := by
  induction hlength : s.length using Nat.strongRecOn generalizing s with
  | ind n ih =>
      rcases h.exists_first_word with hword | ⟨word, gap, rest, rfl, hword, hne, hgap, hrest⟩
      · rw [words_of_isWord hword]
        exact .last hword
      · have hshorter : rest.length < n := by
          have hpos := List.length_pos_of_ne_nil hword.1
          simp only [List.length_append] at hlength
          omega
        rw [words_append hword hne hgap]
        exact .more hword hne hgap (ih _ hshorter hrest rfl)

theorem exists_trimEnd (p : α → Bool) (s : List α) :
    ∃ tail, s = trimEnd p s ++ tail ∧ ∀ c ∈ tail, p c = true :=
  ⟨s.rtakeWhile p, List.rdropWhile_append_rtakeWhile.symm, fun _ => List.mem_rtakeWhile_imp⟩

theorem exists_strip (s : Text) :
    ∃ indent tail, s = indent ++ (strip s ++ tail) ∧ Blanks indent ∧ Blanks tail := by
  obtain ⟨tail, hsplit, htail⟩ := exists_trimEnd isBlank (stripLeft s)
  refine ⟨s.takeWhile isBlank, tail, ?_, fun _ => List.mem_takeWhile_imp, htail⟩
  have hstrip : strip s ++ tail = stripLeft s := hsplit.symm
  rw [hstrip, stripLeft, List.takeWhile_append_dropWhile]

theorem mem_strip {c : CodePoint} (hc : isBlank c = false) {s : Text} (h : c ∈ s) :
    c ∈ strip s := by
  obtain ⟨indent, tail, hs, hindent, htail⟩ := exists_strip s
  have hnot {gap : Text} (hgap : Blanks gap) : c ∉ gap := by
    intro hmem
    rw [hgap c hmem] at hc
    cases hc
  rw [hs, List.mem_append, List.mem_append] at h
  exact (h.resolve_left (hnot hindent)).resolve_right (hnot htail)

theorem strip_stripLeft (s : Text) : strip (stripLeft s) = strip s := by
  have hidem : stripLeft (stripLeft s) = stripLeft s := List.dropWhile_idempotent isBlank s
  rw [strip, hidem]
  rfl

theorem strip_append_blanks (s : Text) {tail : Text} (h : Blanks tail) :
    strip (s ++ tail) = strip s := by
  rw [strip, strip, stripLeft, stripLeft, List.dropWhile_append]
  split
  · next hempty =>
      rw [List.isEmpty_iff] at hempty
      rw [hempty, List.dropWhile_eq_nil_iff.mpr h]
  · exact trimEnd_append _ h

theorem trimEnd_append_cons {p : α → Bool} {c : α} (h : p c = false) (front tail : List α) :
    trimEnd p (front ++ c :: tail) = front ++ c :: trimEnd p tail := by
  rw [trimEnd, List.reverse_append, List.reverse_cons, List.append_assoc, List.singleton_append,
    List.dropWhile_append]
  split
  · next hempty =>
      rw [List.isEmpty_iff] at hempty
      simp [trimEnd, hempty, h]
  · simp [trimEnd]

theorem stripLeft_append_cons {c : CodePoint} (h : isBlank c = false) (front tail : Text) :
    stripLeft (front ++ c :: tail) = stripLeft front ++ c :: tail := by
  rw [stripLeft, stripLeft, List.dropWhile_append]
  split
  · next hempty =>
      rw [List.isEmpty_iff] at hempty
      simp [hempty, h]
  · rfl

theorem strip_append_cons {c : CodePoint} (h : isBlank c = false) (front tail : Text) :
    strip (front ++ c :: tail) = stripLeft front ++ c :: trimEnd isBlank tail := by
  rw [strip, stripLeft_append_cons h, trimEnd_append_cons h]

private theorem splitWhen_eq_cons (p : α → Bool) (s : List α) :
    ∃ rest, splitWhen p s = s.takeWhile (fun c => !p c) :: rest := by
  induction s with
  | nil => exact ⟨[], rfl⟩
  | cons c cs ih =>
      obtain ⟨rest, hsplit⟩ := ih
      rw [splitWhen_cons, hsplit]
      cases hc : p c with
      | true => exact ⟨cs.takeWhile (fun c => !p c) :: rest, by simp [hc]⟩
      | false => exact ⟨rest, by simp [hc]⟩

/-- A piece without a separator lies in one piece of the split. -/
theorem exists_splitWhen_of_isInfix {p : α → Bool} {piece s : List α}
    (hpiece : ∀ c ∈ piece, p c = false) (h : piece <:+: s) :
    ∃ part ∈ splitWhen p s, piece <:+: part := by
  induction s with
  | nil => exact ⟨[], List.mem_cons_self, h⟩
  | cons c cs ih =>
      obtain ⟨rest, hsplit⟩ := splitWhen_eq_cons p (c :: cs)
      rcases List.infix_cons_iff.mp h with hprefix | hinfix
      · refine ⟨(c :: cs).takeWhile (fun c => !p c), by rw [hsplit]; exact List.mem_cons_self, ?_⟩
        obtain ⟨tail, htail⟩ := hprefix
        rw [← htail, List.takeWhile_append_of_pos fun d hd => by simp [hpiece d hd]]
        exact (List.prefix_append _ _).isInfix
      · obtain ⟨part, hpart, hin⟩ := ih hinfix
        obtain ⟨rest', hsplit'⟩ := splitWhen_eq_cons p cs
        rw [splitWhen_cons]
        cases hc : p c with
        | true => exact ⟨part, List.mem_cons_of_mem _ hpart, hin⟩
        | false =>
            rw [hsplit'] at hpart ⊢
            rcases List.mem_cons.mp hpart with rfl | hpart
            · exact ⟨_, List.mem_cons_self, hin.trans (List.suffix_cons c _).isInfix⟩
            · exact ⟨part, List.mem_cons_of_mem _ hpart, hin⟩

theorem exists_word_of_isInfix {piece s : Text} (hpiece : IsWord piece) (h : piece <:+: s) :
    ∃ word ∈ words s, piece <:+: word := by
  obtain ⟨part, hpart, hin⟩ := exists_splitWhen_of_isInfix hpiece.2 h
  refine ⟨part, List.mem_filter.mpr ⟨hpart, ?_⟩, hin⟩
  have hne : part ≠ [] := by
    rintro rfl
    exact hpiece.1 (List.infix_nil.mp hin)
  simpa using hne

private theorem splitWhen_append_cons {p : α → Bool} {c : α} (hc : p c = true) (s t : List α) :
    splitWhen p (s ++ c :: t) = splitWhen p s ++ splitWhen p t := by
  induction s with
  | nil => simp [splitWhen_cons, hc]
  | cons d ds ih =>
      obtain ⟨rest, hsplit⟩ := splitWhen_eq_cons p ds
      rw [List.cons_append, splitWhen_cons, splitWhen_cons, ih, hsplit]
      cases hd : p d <;> rfl

private theorem words_append_cons {b : CodePoint} (hb : isBlank b = true) (s t : Text) :
    words (s ++ b :: t) = words s ++ words t := by
  rw [words, splitWhen_append_cons hb, List.filter_append]
  rfl

private theorem Solid.words_ne_nil {s : Text} (h : Solid s) : words s ≠ [] := by
  intro hnil
  have hspaced := h.spaced_words
  rw [hnil] at hspaced
  cases hspaced

theorem getLast?_words_append {b : CodePoint} (hb : isBlank b = true) (s : Text) {t : Text}
    (ht : Solid t) : (words (s ++ b :: t)).getLast? = (words t).getLast? := by
  rw [words_append_cons hb]
  exact List.getLast?_append_of_ne_nil _ ht.words_ne_nil

private theorem words_append_blanks (s : Text) {tail : Text} (h : Blanks tail) :
    words (s ++ tail) = words s := by
  cases tail with
  | nil => rw [List.append_nil]
  | cons b rest =>
      have hrest : words rest = [] := by
        have hblanks := words_blanks (fun c hc => h c (List.mem_cons_of_mem _ hc)) []
        rwa [List.append_nil] at hblanks
      rw [words_append_cons (h b List.mem_cons_self), hrest, List.append_nil]

theorem words_stripLeft (s : Text) : words (stripLeft s) = words s := by
  have hblanks : Blanks (s.takeWhile isBlank) := fun _ => List.mem_takeWhile_imp
  calc
    words (stripLeft s) = words (s.takeWhile isBlank ++ s.dropWhile isBlank) :=
      (words_blanks hblanks _).symm
    _ = words s := by rw [List.takeWhile_append_dropWhile]

/-- A text has the words that are left when it is stripped. -/
theorem words_strip (s : Text) : words (strip s) = words s := by
  obtain ⟨indent, tail, hs, hindent, htail⟩ := exists_strip s
  calc
    words (strip s) = words (strip s ++ tail) := (words_append_blanks _ htail).symm
    _ = words (indent ++ (strip s ++ tail)) := (words_blanks hindent _).symm
    _ = words s := congrArg words hs.symm

theorem beforeFirst_append [BEq α] [LawfulBEq α] {separator : α} {s : List α}
    (h : separator ∉ s) (rest : List α) : beforeFirst separator (s ++ separator :: rest) = s := by
  have hbefore : ∀ c ∈ s, (c != separator) = true := by
    intro c hc
    simp only [bne_iff_ne, ne_eq]
    exact fun he => h (he ▸ hc)
  rw [beforeFirst, List.takeWhile_append_of_pos hbefore]
  simp

theorem afterLast_append [BEq α] [LawfulBEq α] {separator : α} {s : List α}
    (h : separator ∉ s) (front : List α) : afterLast separator (front ++ separator :: s) = s := by
  have hreverse : separator ∉ s.reverse := by simpa using h
  have hbefore := beforeFirst_append hreverse front.reverse
  rw [beforeFirst] at hbefore
  rw [afterLast, List.reverse_append, List.reverse_cons, List.append_assoc, List.singleton_append,
    hbefore, List.reverse_reverse]

end Text

theorem isBlank_of_mem_commentMarks {c : CodePoint} (h : c ∈ commentMarks) :
    Text.isBlank c = false := by
  have hmarks : ∀ mark ∈ commentMarks, Text.isBlank mark = false := by decide
  exact hmarks c h

namespace Line

variable {l : Line}

theorem statement_eq_nil_or_solid (l : Line) : l.statement = [] ∨ Text.Solid l.statement :=
  Text.strip_eq_nil_or_solid _

theorem mnemonic_eq_nil (h : l.statement = []) : l.mnemonic = [] := by
  rw [mnemonic, words, h]
  rfl

theorem exists_gap (h : Text.Solid l.statement) : Text.IsWord l.mnemonic ∧
    ∃ gap, Text.Blanks gap ∧ l.statement = l.mnemonic ++ (gap ++ l.operand) ∧
      (gap = [] ∧ l.operand = [] ∨ gap ≠ [] ∧ Text.Solid l.operand) := by
  rcases h.exists_first_word with hword | ⟨word, gap, rest, hsplit, hword, hne, hgap, hrest⟩
  · have hmnemonic : l.mnemonic = l.statement := by
      rw [mnemonic, words, Text.words_of_isWord hword, List.headD_cons]
    have hoperand : l.operand = [] := by
      rw [operand, hmnemonic, List.drop_length]
      rfl
    refine ⟨hmnemonic ▸ hword, [], Text.blanks_nil, ?_, .inl ⟨rfl, hoperand⟩⟩
    simp [hmnemonic, hoperand]
  · have hmnemonic : l.mnemonic = word := by
      rw [mnemonic, words, hsplit, Text.words_append hword hne hgap, List.headD_cons]
    have hoperand : l.operand = rest := by
      rw [operand, hmnemonic, hsplit, List.drop_left]
      simpa using hrest.strip_eq hgap Text.blanks_nil
    rw [hmnemonic, hoperand]
    exact ⟨hword, gap, hgap, hsplit, .inr ⟨hne, hrest⟩⟩

theorem words_eq_cons (h : Text.Solid l.statement) :
    l.words = l.mnemonic :: Text.words l.operand := by
  obtain ⟨hword, gap, hgap, hstatement, hparts⟩ := exists_gap h
  rw [words, hstatement]
  rcases hparts with ⟨hnone, hoperand⟩ | ⟨hne, -⟩
  · rw [hnone, hoperand, List.nil_append, List.append_nil, Text.words_of_isWord hword]
    rfl
  · exact Text.words_append hword hne hgap _

end Line

/-- The operand of a line is its words from the second one on, with the blanks between them. -/
theorem Line.spaced_operand {l : Line} {first word : Text} {rest : List Text}
    (h : l.words = first :: word :: rest) : Text.Spaced (word :: rest) l.operand := by
  have hspaced : Text.Spaced (first :: word :: rest) l.statement := by
    rcases Text.strip_eq_nil_or_solid (Text.afterLast labelSeparator l.stripped) with hnil | hsolid
    · rw [words, statement, hnil] at h
      cases h
    · rw [← h]
      exact hsolid.spaced_words
  have hmnemonic : l.mnemonic = first := by rw [mnemonic, h, List.headD_cons]
  rw [operand, hmnemonic]
  generalize l.statement = s at hspaced
  cases hspaced with
  | more isWord separated blanks spaced =>
      have hstrip := spaced.solid.strip_eq blanks Text.blanks_nil
      rw [List.append_nil] at hstrip
      rw [List.drop_left, hstrip]
      exact spaced

theorem Line.operand_of_words {l : Line} {first word : Text} (h : l.words = [first, word]) :
    l.operand = word := by
  have hspaced := l.spaced_operand h
  generalize l.operand = s at hspaced
  cases hspaced with
  | last isWord => rfl
  | more _ _ _ nothing => cases nothing

end TeachAsm
