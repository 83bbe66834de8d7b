import TeachAsm.Proofs.BelowEnd
import TeachAsm.Proofs.Contents
import TeachAsm.Proofs.MemoryScan

/-!
# Stray operands

Register and input-output statements take no operand. The scan of memory looks for one by the last
word of the whole cell. So it sees an operand unless that ends with a mnemonic of the same family,
and it takes a label that is set against the mnemonic for one.
-/

namespace TeachAsm

namespace Text

private theorem exists_last_blank (s : Text) : (∀ c ∈ s, isBlank c = false) ∨
    ∃ front b back, s = front ++ b :: back ∧ isBlank b = true ∧ ∀ c ∈ back, isBlank c = false := by
  induction s with
  | nil => exact .inl (by simp)
  | cons c cs ih =>
      rcases ih with hclean | ⟨front, b, back, rfl, hb, hback⟩
      · cases hc : isBlank c with
        | true => exact .inr ⟨[], c, cs, rfl, hc, hclean⟩
        | false => exact .inl (List.forall_mem_cons.mpr ⟨hc, hclean⟩)
      · exact .inr ⟨c :: front, b, back, rfl, hb, hback⟩

private theorem exists_last_word {word : Text} (h : IsWord word) (s : Text) :
    ∃ front, (words (s ++ word)).getLast? = some (front ++ word) := by
  have hlast {front : Text} (hfront : ∀ c ∈ front, isBlank c = false) : IsWord (front ++ word) := by
    refine ⟨by simp [h.1], ?_⟩
    intro c hc
    rcases List.mem_append.mp hc with hc | hc
    · exact hfront c hc
    · exact h.2 c hc
  rcases exists_last_blank s with hclean | ⟨front, b, back, rfl, hb, hback⟩
  · exact ⟨s, by rw [words_of_isWord (hlast hclean)]; rfl⟩
  · refine ⟨back, ?_⟩
    rw [List.append_assoc, List.cons_append, getLast?_words_append hb _ (hlast hback).solid,
      words_of_isWord (hlast hback)]
    rfl

end Text

namespace Family

private theorem endsText_append (f : Family) {b : CodePoint} (hb : Text.isBlank b = true) (s : Text)
    {t : Text} (ht : Text.Solid t) : f.endsText (s ++ b :: t) = f.endsText t := by
  rw [endsText, endsText, Text.getLast?_words_append hb s ht]

private theorem endsText_of_isWord (f : Family) {word : Text} (h : Text.IsWord word) :
    f.endsText word = f.hasWord word := by
  rw [endsText, Text.words_of_isWord h]
  rfl

private theorem isToken_of_hasWord {f : Family} {word : Text} (h : f.hasWord word = true) :
    IsToken word := by
  obtain ⟨m, -, hm⟩ := exists_mnemonic h
  rw [← Mnemonic.spelling_of_ofWord? hm]
  exact isToken_spelling m

private theorem hasWord_of_separator (f : Family) {word : Text} (h : labelSeparator ∈ word) :
    f.hasWord word = false := by
  rw [Bool.eq_false_iff]
  intro hword
  exact not_mem_of_not_isPunctuation (isToken_of_hasWord hword).2 (by decide) h

private theorem endsText_of_separator (f : Family) (s : Text) {word : Text} (h : Text.IsWord word) :
    f.endsText (s ++ labelSeparator :: word) = false := by
  have hword : Text.IsWord (labelSeparator :: word) :=
    ⟨List.cons_ne_nil _ _, List.forall_mem_cons.mpr ⟨by decide, h.2⟩⟩
  obtain ⟨front, hlast⟩ := Text.exists_last_word hword s
  rw [endsText, hlast]
  exact f.hasWord_of_separator (List.mem_append_right _ List.mem_cons_self)

private theorem occursInText_of_isInfix {f : Family} {word text : Text}
    (hword : f.hasWord word = true) (h : word <:+: text) : f.occursInText text = true := by
  obtain ⟨m, hfamily, hm⟩ := exists_mnemonic hword
  rw [occursInText, List.any_eq_true]
  refine ⟨m, ?_, ?_⟩
  · rw [mnemonics, List.mem_filter]
    exact ⟨Mnemonic.mem_all m, by simp [hfamily]⟩
  · rw [Text.occursIn_iff_isInfix, Mnemonic.spelling_of_ofWord? hm]
    exact h

end Family

namespace Text

private theorem exists_blank_before_stripLeft {c : CodePoint} (hc : isBlank c = true)
    (rest : Text) : ∃ gap b, isBlank b = true ∧ c :: rest = gap ++ b :: stripLeft (c :: rest) := by
  have hsplit := List.takeWhile_append_dropWhile (p := isBlank) (l := c :: rest)
  obtain ⟨gap, b, hgap⟩ :=
    (List.eq_nil_or_concat ((c :: rest).takeWhile isBlank)).resolve_left (by simp [hc])
  have hb : b ∈ (c :: rest).takeWhile isBlank := by simp [hgap]
  refine ⟨gap, b, List.mem_takeWhile_imp hb, ?_⟩
  rw [stripLeft, List.append_cons, ← List.concat_eq_append, ← hgap, hsplit]

end Text

namespace Line

/-- A label is followed by the statement with no blank between them. -/
def isTight (l : Line) : Bool :=
  l.hasLabel && !(Text.afterLast labelSeparator l.stripped).head?.any Text.isBlank

/-- What the last word of the line gives away: the operand does not end with a mnemonic of the
family, or there is none and a label is set against the mnemonic. -/
def isStray (f : Family) (l : Line) : Bool :=
  if l.operand.isEmpty then l.isTight else !f.endsText l.operand

private theorem statement_eq_stripLeft (l : Line) :
    l.statement = Text.stripLeft (Text.afterLast labelSeparator l.stripped) := by
  have hsuffix : Text.stripLeft (Text.afterLast labelSeparator l.stripped) <:+ l.stripped :=
    (List.dropWhile_suffix _).trans (Text.afterLast_isSuffix _ _)
  rw [statement, Text.strip]
  by_cases hnil : Text.stripLeft (Text.afterLast labelSeparator l.stripped) = []
  · rw [hnil]
    rfl
  · -- what is left ends where the line ends, and not with a blank
    rcases Text.strip_eq_nil_or_solid l.text with hempty | hsolid
    · have hstripped : l.stripped = [] := hempty
      rw [hstripped] at hnil
      exact absurd rfl hnil
    · obtain ⟨front, d, hlast, hd⟩ := hsolid.exists_last hsuffix hnil
      rw [hlast, Text.trimEnd_concat front hd]

private theorem exists_stripped_of_hasLabel {l : Line} (h : l.hasLabel = true) :
    ∃ front, l.stripped = front ++ labelSeparator :: Text.afterLast labelSeparator l.stripped := by
  have hmem : labelSeparator ∈ l.stripped :=
    Text.mem_strip (by decide) (by simpa [hasLabel] using h)
  obtain ⟨front, tail, hsplit, htail⟩ := Text.exists_last_separator hmem
  refine ⟨front, ?_⟩
  rw [hsplit, Text.afterLast_append htail]

/-- The mnemonic alone, or the mnemonic and behind a blank the operand. -/
private theorem statement_cases {l : Line} (h : Text.IsWord l.mnemonic) :
    l.operand = [] ∧ l.statement = l.mnemonic ∨
      Text.Solid l.operand ∧ ∃ front b, Text.isBlank b = true ∧
        l.statement = front ++ b :: l.operand := by
  have hsolid : Text.Solid l.statement :=
    l.statement_eq_nil_or_solid.resolve_left fun hnil => h.1 (mnemonic_eq_nil hnil)
  obtain ⟨-, gap, hgap, hstatement, hparts⟩ := exists_gap hsolid
  rcases hparts with ⟨hnone, hoperand⟩ | ⟨hne, hoperand⟩
  · rw [hnone, hoperand, List.nil_append, List.append_nil] at hstatement
    exact .inl ⟨hoperand, hstatement⟩
  · obtain ⟨front, b, hconcat⟩ := (List.eq_nil_or_concat gap).resolve_left hne
    refine .inr ⟨hoperand, l.mnemonic ++ front, b, hgap b (by simp [hconcat]), ?_⟩
    rw [hstatement, hconcat]
    simp

private theorem statement_isSuffix (l : Line) : l.statement <:+ l.stripped := by
  rw [statement_eq_stripLeft]
  exact (List.dropWhile_suffix _).trans (Text.afterLast_isSuffix _ _)

private theorem endsText_of_mnemonic (f : Family) {l : Line} (h : Text.IsWord l.mnemonic)
    (hstatement : l.statement = l.mnemonic) :
    f.endsText l.stripped = (f.hasWord l.mnemonic && !l.isTight) := by
  cases hlabel : l.hasLabel with
  | false =>
      rw [← statement_of_not_hasLabel hlabel, hstatement, f.endsText_of_isWord h]
      simp [isTight, hlabel]
  | true =>
      obtain ⟨front, hstripped⟩ := exists_stripped_of_hasLabel hlabel
      have hleft := l.statement_eq_stripLeft
      rw [hstatement] at hleft
      rw [isTight, hlabel]
      generalize Text.afterLast labelSeparator l.stripped = tail at hstripped hleft ⊢
      cases tail with
      | nil => exact absurd hleft h.1
      | cons c rest =>
          cases hc : Text.isBlank c with
          | true =>
              obtain ⟨gap, b, hb, hgap⟩ := Text.exists_blank_before_stripLeft hc rest
              have hbehind : l.stripped = (front ++ labelSeparator :: gap) ++ b :: l.mnemonic := by
                rw [hstripped, hgap, ← hleft]
                simp
              rw [hbehind, f.endsText_append hb _ h.solid, f.endsText_of_isWord h]
              simp [hc]
          | false =>
              have hword : l.mnemonic = c :: rest := by
                rw [hleft, Text.stripLeft, List.dropWhile_cons_of_neg (by simp [hc])]
              rw [hstripped, ← hword, f.endsText_of_separator front h, hword]
              simp [hc]

private theorem endsText_stripped (f : Family) {l : Line} (h : Text.IsWord l.mnemonic) :
    f.endsText l.stripped = if l.operand.isEmpty then f.hasWord l.mnemonic && !l.isTight
      else f.endsText l.operand := by
  rcases statement_cases h with ⟨hnone, hstatement⟩ | ⟨hoperand, front, b, hb, hstatement⟩
  · rw [if_pos (by simp [hnone])]
    exact endsText_of_mnemonic f h hstatement
  · obtain ⟨before, hbefore⟩ := l.statement_isSuffix
    have hne : l.operand.isEmpty = false := by
      obtain ⟨⟨c, rest, hcons, -⟩, -⟩ := hoperand
      rw [hcons]
      rfl
    rw [hne, if_neg Bool.false_ne_true, ← hbefore, hstatement, ← List.append_assoc,
      f.endsText_append hb _ hoperand]

private theorem endsText_eq_not_isStray {f : Family} {l : Line} (h : f.hasWord l.mnemonic = true) :
    f.endsText l.stripped = !l.isStray f := by
  rw [endsText_stripped f (Family.isToken_of_hasWord h).1, isStray, h]
  split <;> simp

end Line

private theorem Family.eq_of_hasWord {f g : Family} {word : Text} (hf : f.hasWord word = true)
    (hg : g.hasWord word = true) : f = g := by
  obtain ⟨m, hmf, hm⟩ := exists_mnemonic hf
  obtain ⟨m', hmg, hm'⟩ := exists_mnemonic hg
  rw [hm, Option.some.injEq] at hm'
  rw [← hmf, ← hmg, hm']

namespace Line

variable {l : Line} (symbols : Table Text Nat)

private theorem verbatim_of_hasWord {f : Family} (hf : f ≠ .memoryReference)
    (h : f.hasWord l.mnemonic = true) :
    (l.cell symbols).kind = .verbatim ∧ (l.cell symbols).text = l.stripped := by
  apply (l.laidFrom_cell symbols).verbatim
  rw [Bool.eq_false_iff]
  intro hreference
  exact hf (Family.eq_of_hasWord h hreference)

private theorem occursInText_stripped {f : Family} (h : f.hasWord l.mnemonic = true) :
    f.occursInText l.stripped = true := by
  have hword : l.mnemonic <:+: l.statement := by
    cases hwords : l.words with
    | nil =>
        rw [mnemonic, hwords]
        exact List.nil_infix
    | cons word rest =>
        have hmem : word ∈ l.words := by rw [hwords]; exact List.mem_cons_self
        rw [mnemonic, hwords, List.headD_cons]
        exact Text.words_isInfix hmem
  exact Family.occursInText_of_isInfix h (hword.trans l.statement_isInfix)

private theorem formProblem?_register (h : Family.registerReference.hasWord l.mnemonic = true) :
    (l.cell symbols).formProblem? = some .malformedRegister ↔
      l.isStray .registerReference = true := by
  obtain ⟨hkind, htext⟩ := verbatim_of_hasWord symbols (by decide) h
  rw [Cell.formProblem?, hkind, htext, occursInText_stripped h, endsText_eq_not_isStray h]
  cases hstray : l.isStray .registerReference with
  | true => simp
  | false =>
      rw [if_neg (by decide), if_neg (by simp)]
      split <;> simp

/-- The text of an input-output statement may have a register mnemonic in it, and is then checked
as a register statement first. -/
private theorem formProblem?_transfer (h : Family.inputOutput.hasWord l.mnemonic = true) :
    (l.cell symbols).formProblem? = some .malformedTransfer ↔
      l.isStray .inputOutput = true ∧
        ¬ (Family.registerReference.occursInText l.stripped = true ∧
          l.isStray .registerReference = true) := by
  obtain ⟨hkind, htext⟩ := verbatim_of_hasWord symbols (by decide) h
  have hother : Family.registerReference.hasWord l.mnemonic = false := by
    rw [Bool.eq_false_iff]
    intro hregister
    cases Family.eq_of_hasWord h hregister
  rw [Cell.formProblem?, hkind, htext, occursInText_stripped h, endsText_eq_not_isStray h,
    endsText_stripped _ (Family.isToken_of_hasWord h).1, hother, if_neg (by decide)]
  by_cases hempty : l.operand.isEmpty = true
  · cases hoccurs : Family.registerReference.occursInText l.stripped <;> simp [isStray, hempty]
  · by_cases hends : Family.registerReference.endsText l.operand = true
    · simp [isStray, hempty, hends]
    · cases hoccurs : Family.registerReference.occursInText l.stripped <;>
        simp [isStray, hempty, hends]

end Line

private theorem exists_placement_of_mem_cellFormFindings {lines : List Line} {r : Resolution}
    {first : Nat} {d : Diagnostic}
    (h : .problem d ∈ cellFormFindings first (load lines r).image.cells) : ∃ w ∈
      statements lines, ∃ p, (w.line.cell r.symbols).isChecked = true ∧
      (w.line.cell r.symbols).formProblem? = some p ∧ d = ⟨w.line.wholeRange, p⟩ := by
  obtain ⟨⟨address, c⟩, he, hchecked, hshown⟩ := exists_cell_of_mem_cellFormFindings h
  rw [Cell.formDiagnostic?, Option.map_eq_some_iff] at hshown
  obtain ⟨p, hp, rfl⟩ := hshown
  obtain ⟨w, hw, hwrite⟩ := exists_placement_of_mem_cells he
  rw [Prod.mk.injEq] at hwrite
  obtain ⟨-, hcell⟩ := hwrite
  dsimp only at hchecked hp ⊢
  rw [← hcell] at hchecked hp ⊢
  refine ⟨w, hw, p, hchecked, hp, ?_⟩
  rw [Line.range_cell]

namespace Analysis

section

variable {limit : Int} {text : Text} {a : Analysis} {ledger : Ledger} {visits : List Nat}
  {result : Except Fault Ledger} {address : Nat} {l : Line}

private theorem cell_of_latest (h : run limit text = .ok a) (hinside : address < memorySize)
    (hl : Latest Line.index (LaidOut (sourceLines text) address) l) :
    a.memory.image.cell address = l.cell (resolve (sourceLines text)).symbols := by
  rw [(fields_run h).2.1]
  exact cell_load_of_latest _ hinside hl

private theorem formProblem?_of_mem_diagnostics (h : run limit text = .ok a)
    (hl : l ∈ sourceLines text) {p : Problem} (hsite : p.site = .cell)
    (hform : p ≠ .invalidTarget ∧ p ≠ .unreachableHalt) (hd : ⟨l.wholeRange, p⟩ ∈ a.diagnostics) :
    (l.cell (resolve (sourceLines text)).symbols).isChecked = true ∧
      (l.cell (resolve (sourceLines text)).symbols).formProblem? = some p := by
  rcases List.mem_append.mp hd with hd | hd
  · rcases mem_memory_of_mem_findings (mem_findings_of_mem_gated h hd) with
      ⟨hother, -⟩ | hfound | hfound
    · exact absurd hsite hother
    · obtain ⟨w, hw, p', hchecked, hp', hsame⟩ := exists_placement_of_mem_cellFormFindings hfound
      rw [Diagnostic.mk.injEq] at hsame
      obtain ⟨hrange, rfl⟩ := hsame
      have hindex : l.index = w.line.index :=
        Int.ofNat_inj.mp (congrArg (fun range => range.start.line) hrange)
      have hline : l = w.line := eq_of_index_eq hl (mem_of_mem_place hw) hindex
      rw [hline]
      exact ⟨hchecked, hp'⟩
    · obtain ⟨e, -, p', hp', hsame⟩ := exists_cell_of_mem_cellLogicFindings hfound
      rw [Diagnostic.mk.injEq] at hsame
      obtain ⟨-, rfl⟩ := hsame
      rcases Image.problem_of_logicProblem hp' with rfl | rfl
      · exact absurd rfl hform.1
      · exact absurd rfl hform.2
  · rw [(fields_run h).2.2] at hd
    have hlabel := site_of_mem_labelReport hd
    rw [hsite] at hlabel
    cases hlabel

/-- An analysis with budget left shows what is wrong with every checked cell that its scan
visits. -/
private theorem mem_diagnostics_of_visit (h : run limit text = .ok a)
    (hbudget : a.budget.exhausted = false) (hscan : a.memory.image.Scan 0 ledger visits result)
    (hvisit : address ∈ visits) (hchecked : (a.memory.image.cell address).isChecked = true)
    {p : Problem} (hp : (a.memory.image.cell address).formProblem? = some p) :
    ⟨(a.memory.image.cell address).range, p⟩ ∈ a.diagnostics := by
  have hfound : .problem ⟨(a.memory.image.cell address).range, p⟩ ∈
      a.memory.image.findingsFrom address := by
    simp only [Cell.isChecked, Bool.and_eq_true, Bool.not_eq_true'] at hchecked
    rw [Image.findingsFrom_eq, Cell.findingsThen, hchecked.1, hchecked.2, hp]
    exact List.mem_cons_self
  obtain ⟨front, hfront⟩ := hscan.exists_front hvisit
  have hform : .problem ⟨(a.memory.image.cell address).range, p⟩ ∈
      cellFormFindings 0 a.memory.image.cells := by
    rw [← Image.findingsFrom, hfront]
    exact List.mem_append_right _ hfound
  have htext : .problem ⟨(a.memory.image.cell address).range, p⟩ ∈ textFindings text := by
    obtain ⟨e, he, -, -⟩ := exists_cell_of_mem_cellFormFindings hform
    rw [textFindings_of_mem_cells (congrArg Memory.image (fields_run h).2.1) he]
    simp only [findings, formFindings, List.mem_append]
    exact .inr (.inl (.inr hform))
  rw [textFindings_of_run h hbudget] at htext
  obtain ⟨d, hd, hsame⟩ := List.mem_map.mp htext
  rw [Finding.problem.injEq] at hsame
  exact List.mem_append_left _ (hsame ▸ hd)

private theorem mem_diagnostics_iff (h : run limit text = .ok a)
    (hbudget : a.budget.exhausted = false) (hscan : a.memory.image.Scan 0 ledger visits result)
    (hvisit : address ∈ visits) (hl : Latest Line.index (LaidOut (sourceLines text) address) l)
    {p : Problem} (hsite : p.site = .cell) (hform : p ≠ .invalidTarget ∧ p ≠ .unreachableHalt) :
    ⟨l.wholeRange, p⟩ ∈ a.diagnostics ↔ (a.memory.image.cell address).isChecked = true ∧
      (l.cell (resolve (sourceLines text)).symbols).formProblem? = some p := by
  have hcell := cell_of_latest h (hscan.bounds address hvisit).2 hl
  constructor
  · intro hd
    rw [hcell]
    exact formProblem?_of_mem_diagnostics h (List.takeWhile_subset _ hl.holds.above) hsite hform hd
  · rintro ⟨hchecked, hp⟩
    have hd := mem_diagnostics_of_visit h hbudget hscan hvisit hchecked (hcell ▸ hp)
    rw [hcell, Line.range_cell] at hd
    exact hd

end

/-- A register or input-output statement in a cell that the scan visits, under a budget that
lasts. The scan reports the statement if its operand does not end with a mnemonic of the family, or
if there is none and a label is set against the mnemonic. A cell that ends the scan or mentions
`ORG` is not checked, and an input-output statement with a register mnemonic in its text may be
reported as a register statement. -/
theorem stray_operand_reported_iff {limit : Int} {text : Text} {a : Analysis} {ledger : Ledger}
    {visits : List Nat} {result : Except Fault Ledger} {address : Nat} {l : Line}
    (h : run limit text = .ok a) (hbudget : a.budget.exhausted = false)
    (hscan : a.memory.image.Scan 0 ledger visits result) (hvisit : address ∈ visits)
    (hl : Latest Line.index (LaidOut (sourceLines text) address) l) :
    (Family.registerReference.hasWord l.mnemonic = true →
      (⟨l.wholeRange, .malformedRegister⟩ ∈ a.diagnostics ↔
        (a.memory.image.cell address).isChecked = true ∧ l.isStray .registerReference = true)) ∧
    (Family.inputOutput.hasWord l.mnemonic = true →
      (⟨l.wholeRange, .malformedTransfer⟩ ∈ a.diagnostics ↔
        (a.memory.image.cell address).isChecked = true ∧ l.isStray .inputOutput = true ∧
          ¬ (Family.registerReference.occursInText l.stripped = true ∧
            l.isStray .registerReference = true))) := by
  constructor
  · intro hregister
    rw [mem_diagnostics_iff h hbudget hscan hvisit hl (p := .malformedRegister) rfl (by decide),
      Line.formProblem?_register _ hregister]
  · intro htransfer
    rw [mem_diagnostics_iff h hbudget hscan hvisit hl (p := .malformedTransfer) rfl (by decide),
      Line.formProblem?_transfer _ htransfer]

/-- A labelled `HLT` with an operand. -/
theorem stray_operand_reported_iff_labelled :
    let text : Text := .ofString "FIN, HLT 5\nEND"
    ∃ a, run 100 text = .ok a ∧ ⟨.wholeLine 0, .malformedRegister⟩ ∈ a.diagnostics := by
  intro text
  have heval : (run 100 text).toOption.map (fun a => a.budget.exhausted) = some false := by
    decide +kernel
  cases hrun : run 100 text with
  | error f =>
      rw [hrun] at heval
      cases heval
  | ok a =>
      rw [hrun, Except.toOption, Option.map_some, Option.some.injEq] at heval
      have hl : Latest Line.index (LaidOut (sourceLines text) 0) ⟨0, .ofString "FIN, HLT 5"⟩ :=
        latest_of_statements (by decide +kernel) (by decide +kernel)
      obtain ⟨visits, result, hscan⟩ := a.memory.image.exists_scan 0 { budget := { limit := 100 } }
      have hvisit := hscan.mem_start (by decide)
      have hchecked : (a.memory.image.cell 0).isChecked = true := by
        rw [cell_of_latest hrun (by decide) hl]
        decide +kernel
      have hiff := (stray_operand_reported_iff hrun heval hscan hvisit hl).1 (by decide +kernel)
      exact ⟨a, rfl, hiff.mpr ⟨hchecked, by decide +kernel⟩⟩

/-- A register statement without an operand is reported when its label is set against it, and one
whose operand is a register mnemonic is not. -/
theorem operand_misjudged_by_last_word :
    let text : Text := .ofString "X,CLA\nCLA CLE\nHLT\nEND"
    ∃ (a : Analysis) (ledger : Ledger) (visits : List Nat) (result : Except Fault Ledger)
      (first second : Line),
      run 100 text = .ok a ∧ a.budget.exhausted = false ∧
      a.memory.image.Scan 0 ledger visits result ∧
      (0 ∈ visits ∧ Latest Line.index (LaidOut (sourceLines text) 0) first ∧
        (a.memory.image.cell 0).kind = .verbatim ∧
        Family.registerReference.hasWord first.mnemonic = true ∧ first.operand = [] ∧
        ⟨first.wholeRange, .malformedRegister⟩ ∈ a.diagnostics) ∧
      (1 ∈ visits ∧ Latest Line.index (LaidOut (sourceLines text) 1) second ∧
        (a.memory.image.cell 1).kind = .verbatim ∧
        Family.registerReference.hasWord second.mnemonic = true ∧
        second.operand = .ofString "CLE" ∧
        ⟨second.wholeRange, .malformedRegister⟩ ∉ a.diagnostics) := by
  intro text
  let first : Line := ⟨0, .ofString "X,CLA"⟩
  let second : Line := ⟨1, .ofString "CLA CLE"⟩
  have heval : (run 100 text).toOption.map (fun a => (a.budget.exhausted,
      decide (⟨first.wholeRange, .malformedRegister⟩ ∈ a.diagnostics),
      decide (⟨second.wholeRange, .malformedRegister⟩ ∈ a.diagnostics))) =
        some (false, true, false) := by
    decide +kernel
  cases hrun : run 100 text with
  | error f =>
      rw [hrun] at heval
      cases heval
  | ok a =>
      simp only [hrun, Except.toOption, Option.map_some, Option.some.injEq, Prod.mk.injEq,
        decide_eq_true_eq, decide_eq_false_iff_not] at heval
      obtain ⟨hbudget, hreported, hmissed⟩ := heval
      have hfirst : Latest Line.index (LaidOut (sourceLines text) 0) first :=
        latest_of_statements (by decide +kernel) (by decide +kernel)
      have hsecond : Latest Line.index (LaidOut (sourceLines text) 1) second :=
        latest_of_statements (by decide +kernel) (by decide +kernel)
      have hcell := cell_of_latest hrun (by decide) hfirst
      have hcell' := cell_of_latest hrun (by decide) hsecond
      obtain ⟨visits, result, later⟩ := a.memory.image.exists_scan 1
        (({ budget := { limit := 100 } } : Ledger).report (a.memory.image.cell 0).range
          (a.memory.image.cell 0).formProblem?)
      have hplain : (a.memory.image.cell 0).endsScan = false ∧
          (a.memory.image.cell 0).mentionsOrigin = false := by
        rw [hcell]
        decide +kernel
      refine ⟨a, _, _, _, first, second, rfl, hbudget,
        .checked ⟨by decide, hplain.1, rfl⟩ hplain.2 later,
        ⟨List.mem_cons_self, hfirst, ?_, by decide +kernel, by decide +kernel, hreported⟩,
        ⟨List.mem_cons_of_mem _ (later.mem_start (by decide)), hsecond, ?_, by decide +kernel,
          by decide +kernel, hmissed⟩⟩
      · rw [hcell]
        decide +kernel
      · rw [hcell']
        decide +kernel

end Analysis

end TeachAsm
