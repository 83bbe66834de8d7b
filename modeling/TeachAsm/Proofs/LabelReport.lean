import TeachAsm.Proofs.BelowEnd
import TeachAsm.Proofs.Contents
import TeachAsm.Proofs.Declarations

/-!
# The report on labels

The report on labels is read off the tables of the two walks, and no budget bounds it. It shows a
redeclaration unless a later one has the same counter, an invalid label on the last line that uses
the word, and every label that no memory reference above `END` names.
-/

namespace TeachAsm

/-- What the report says about a label. -/
inductive LabelProblem where
  | duplicate
  | unused
  | invalid
deriving DecidableEq

def Problem.labelProblem? : Problem → Option LabelProblem
  | duplicateLabel _ _ => some .duplicate
  | unusedLabel _ => some .unused
  | invalidLabel _ => some .invalid
  | _ => none

private theorem Problem.site_of_labelProblem? {p : Problem} {k : LabelProblem}
    (h : p.labelProblem? = some k) : p.site = .label := by
  cases p <;> first | rfl | cases h

/-- The diagnostic says this about some label. -/
def Diagnostic.isAbout (k : LabelProblem) (d : Diagnostic) : Bool :=
  d.problem.labelProblem? = some k

def Redeclaration.diagnostic (d : Redeclaration) : Diagnostic :=
  ⟨.wholeLine d.line, .duplicateLabel d.label (d.previous.line + 1)⟩

section

variable (r : Resolution) (unused : Table Text Nat)

private theorem filter_labelReport_duplicate :
    (labelReport r unused).filter (·.isAbout .duplicate) =
      r.duplicates.values.map Redeclaration.diagnostic := by
  simp [labelReport, List.filter_map, Function.comp_def, Diagnostic.isAbout,
    Problem.labelProblem?, Redeclaration.diagnostic]

private theorem filter_labelReport_unused :
    (labelReport r unused).filter (·.isAbout .unused) =
      unused.entries.map fun e => ⟨.wholeLine e.2, .unusedLabel e.1⟩ := by
  simp [labelReport, List.filter_map, Function.comp_def, Diagnostic.isAbout,
    Problem.labelProblem?]

private theorem filter_labelReport_invalid :
    (labelReport r unused).filter (·.isAbout .invalid) =
      r.invalid.entries.map fun e => ⟨.wholeLine e.2, .invalidLabel e.1⟩ := by
  simp [labelReport, List.filter_map, Function.comp_def, Diagnostic.isAbout,
    Problem.labelProblem?]

end

private theorem Analysis.filter_isAbout {limit : Int} {text : Text} {a : Analysis}
    (h : run limit text = .ok a) (k : LabelProblem) :
    let r := resolve (sourceLines text)
    a.diagnostics.filter (·.isAbout k) =
      (labelReport r (load (sourceLines text) r).unused).filter (·.isAbout k) := by
  intro r
  have hgated : a.gated.filter (·.isAbout k) = [] := by
    rw [List.filter_eq_nil_iff]
    intro d hd habout
    rw [Diagnostic.isAbout, decide_eq_true_eq] at habout
    exact site_of_mem_findings (mem_findings_of_mem_gated h hd)
      (Problem.site_of_labelProblem? habout)
  rw [diagnostics, List.filter_append, hgated, (fields_run h).2.2, List.nil_append]

private theorem Table.mem_entries_iff {κ ν : Type} [DecidableEq κ] (t : Table κ ν) (key : κ)
    (value : ν) : (key, value) ∈ t.entries ↔ t.get? key = some value :=
  ⟨find?_of_mem t.distinct, mem_of_find?⟩

/-- The operand of a memory reference above `END`, whether or not the statement is loaded or stays
in memory. -/
def isUsed (lines : List Line) (label : Text) : Bool :=
  (aboveEnd lines).any fun l => !l.isBlank && l.isReference && l.words[1]? == some label

/-- What is left of a table when the operands of references are erased one after the other. -/
private theorem entries_foldl_erase (placements : List Placement) (t : Table Text Nat) :
    (placements.foldl (fun unused p => if p.line.isReference then unused.erase p.line.operandWord
      else unused) t).entries =
      t.entries.filter fun e =>
        !placements.any fun p => p.line.isReference && p.line.operandWord == e.1 := by
  induction placements generalizing t with
  | nil => simp
  | cons p rest ih =>
      rw [List.foldl_cons, ih]
      cases hreference : p.line.isReference with
      | false => simp [hreference]
      | true =>
          rw [if_pos rfl, Table.erase, List.filter_filter]
          apply List.filter_congr
          intro e he
          by_cases hkey : e.1 = p.line.operandWord
          · simp [hreference, hkey]
          · simp [hreference, hkey, Ne.symm hkey]

private theorem Line.operandWord_eq_iff {l : Line} {label : Text} (h : label ≠ []) :
    l.operandWord = label ↔ l.words[1]? = some label := by
  rw [operandWord, List.getD_eq_getElem?_getD]
  cases hword : l.words[1]? with
  | none => simpa using Ne.symm h
  | some word => simp

private theorem Line.occupies_of_isReference {l : Line} (habove : l.states .END = false)
    (hblank : l.isBlank = false) (h : l.isReference = true) : l.occupies = true := by
  have horigin : l.states .ORG = false := by
    rw [states_of_not_isBlank hblank, beq_eq_false_iff_ne]
    exact mnemonic?_ne_of_isReference h (by decide)
  rw [occupies, statementStep_eq_occupy_iff.mpr ⟨hblank, horigin, habove⟩]
  rfl

private theorem any_statements_eq_isUsed {lines : List Line} {label : Text} (h : label ≠ []) :
    ((statements lines).any fun p => p.line.isReference && p.line.operandWord == label) =
      isUsed lines label := by
  have hlines : (statements lines).map Placement.line = (aboveEnd lines).filter Line.occupies :=
    map_line_place 0 lines
  rw [Bool.eq_iff_iff, isUsed, List.any_eq_true, List.any_eq_true]
  simp only [Bool.and_eq_true, beq_iff_eq, Bool.not_eq_true', Line.operandWord_eq_iff h]
  constructor
  · rintro ⟨p, hp, hreference, hoperand⟩
    have hmem : p.line ∈ (aboveEnd lines).filter Line.occupies := hlines ▸ List.mem_map_of_mem hp
    obtain ⟨habove, hoccupies⟩ := List.mem_filter.mp hmem
    rw [Line.occupies, beq_iff_eq, Line.statementStep_eq_occupy_iff] at hoccupies
    exact ⟨p.line, habove, ⟨hoccupies.1, hreference⟩, hoperand⟩
  · rintro ⟨l, habove, ⟨hblank, hreference⟩, hoperand⟩
    have hoccupies :=
      Line.occupies_of_isReference (states_end_of_mem_aboveEnd habove) hblank hreference
    have hmem : l ∈ (statements lines).map Placement.line :=
      hlines ▸ List.mem_filter.mpr ⟨habove, hoccupies⟩
    obtain ⟨p, hp, rfl⟩ := List.mem_map.mp hmem
    exact ⟨p, hp, hreference, hoperand⟩

private theorem isLabel_of_mem_keys {text label : Text}
    (h : label ∈ (resolve (sourceLines text)).declarations.keys) : isLabel label = true := by
  rw [resolve_eq, Bindings.keys_declarations_tables] at h
  obtain ⟨d, hd⟩ := (Table.mem_keys_iff _ _).mp h
  exact (((records_bindings text).labels label d).mp hd).holds.valid

private theorem entries_unused_load (text : Text) :
    let r := resolve (sourceLines text)
    (load (sourceLines text) r).unused.entries =
      r.declarations.entries.filter fun e => !isUsed (sourceLines text) e.1 := by
  intro r
  rw [load_unused, Resolution.unusedIn, entries_foldl_erase, unused_resolve]
  apply List.filter_congr
  intro e he
  have hkey : e.1 ∈ r.declarations.keys := List.mem_map_of_mem he
  have hne : e.1 ≠ [] := by
    intro hempty
    have hlabel := isLabel_of_mem_keys hkey
    rw [hempty] at hlabel
    revert hlabel
    decide
  rw [any_statements_eq_isUsed hne]

namespace Analysis

/-- Whatever the limit, an analysis that succeeds reports exactly the labels that no memory
reference above `END` names: each once, on the line that declares it last, in the order in which the
labels are declared first. -/
theorem unused_labels_reported {limit : Int} {text : Text} {a : Analysis}
    (h : run limit text = .ok a) :
    let lines := sourceLines text
    let r := resolve lines
    a.diagnostics.filter (·.isAbout .unused) =
      ((r.declarations.entries.filter fun e => !isUsed lines e.1).map
        fun e => ⟨.wholeLine e.2, .unusedLabel e.1⟩) ∧
    (∀ label, (∃ x ∈ a.diagnostics, x.problem = .unusedLabel label) ↔
      label ∈ r.symbols.keys ∧ isUsed lines label = false) ∧
    r.declarations.keys = r.symbols.keys ∧ r.symbols.keys.Nodup ∧
    r.symbols.keys.Pairwise (DeclaredBefore (Declares lines)) := by
  intro lines r
  have hreport : a.diagnostics.filter (·.isAbout .unused) =
      (r.declarations.entries.filter fun e => !isUsed lines e.1).map
        fun e => ⟨.wholeLine e.2, .unusedLabel e.1⟩ := by
    rw [filter_isAbout h, filter_labelReport_unused, entries_unused_load]
  have hkeys : r.declarations.keys = r.symbols.keys := keys_declarations_resolve lines
  refine ⟨hreport, ?_, hkeys, r.symbols.distinct, ?_⟩
  · intro label
    rw [← hkeys]
    constructor
    · rintro ⟨x, hx, hproblem⟩
      have hmem : x ∈ a.diagnostics.filter (·.isAbout .unused) := by
        rw [List.mem_filter]
        exact ⟨hx, by simp [Diagnostic.isAbout, hproblem, Problem.labelProblem?]⟩
      rw [hreport] at hmem
      obtain ⟨e, he, rfl⟩ := List.mem_map.mp hmem
      obtain ⟨hentry, hunused⟩ := List.mem_filter.mp he
      cases hproblem
      exact ⟨List.mem_map_of_mem hentry, by simpa using hunused⟩
    · rintro ⟨hkey, hunused⟩
      obtain ⟨e, he, rfl⟩ := List.mem_map.mp hkey
      have hmem : ⟨.wholeLine e.2, .unusedLabel e.1⟩ ∈
          a.diagnostics.filter (·.isAbout .unused) := by
        rw [hreport]
        exact List.mem_map_of_mem (List.mem_filter.mpr ⟨he, by simp [hunused]⟩)
      exact ⟨_, (List.mem_filter.mp hmem).1, rfl⟩
  · have horder := (records_bindings text).order
    rw [← Bindings.keys_symbols_tables, ← resolve_eq] at horder
    exact horder

/-- A label used only by a statement past the end of memory counts as used, and one that is declared
twice is shown on its later line, in its earlier place. -/
theorem unused_labels_reported_order :
    let text : Text := .ofString "B, HLT\nC, DEC 1\nD, DEC 2\nB, DEC 3\nORG FFF\nCLA\nLDA C\nEND"
    ∃ a, run 1 text = .ok a ∧
      a.diagnostics.filter (·.isAbout .unused) =
        [⟨.wholeLine 3, .unusedLabel (.ofString "B")⟩,
          ⟨.wholeLine 2, .unusedLabel (.ofString "D")⟩] := by
  intro text
  have heval : (run 1 text).toOption.isSome = true := by decide +kernel
  cases hrun : run 1 text with
  | error f =>
      rw [hrun] at heval
      cases heval
  | ok a =>
      refine ⟨a, rfl, ?_⟩
      rw [(unused_labels_reported hrun).1]
      decide +kernel

private theorem exists_redeclared {declared : Text → Declaration → Prop} {label : Text}
    {d e : Declaration} (hd : declared label d) (he : declared label e) (hbelow : e.line < d.line) :
    ∃ r : Redeclaration, Redeclared declared d.address r ∧ r.label = label ∧ r.line = d.line := by
  have hearlier : ∃ e, declared label e ∧ e.line < d.line := ⟨e, he, hbelow⟩
  obtain ⟨previous, hprevious⟩ := Latest.exists_of_bound hearlier fun e he => he.2
  exact ⟨⟨label, d.line, previous⟩, ⟨hd, hprevious⟩, rfl, rfl⟩

private theorem exists_latest_below {α : Type} {line : α → Nat} {p : α → Prop} {bound : Nat}
    (hbound : ∀ x, p x → line x < bound) {x : α} (hx : p x) :
    ∃ y, Latest line p y ∧ line x ≤ line y := by
  obtain ⟨y, hy⟩ := Latest.exists_of_bound ⟨x, hx⟩ hbound
  exact ⟨y, hy, hy.last x hx⟩

/-- Whatever the limit, an analysis that succeeds shows a redeclaration unless a later one has the
same counter, and a word that is no label on the last line that uses it, and no others. So a counter
with redeclarations and a word that is misused are reported at least once. -/
theorem label_problems_reported {limit : Int} {text : Text} {a : Analysis}
    (h : run limit text = .ok a) :
    let lines := sourceLines text
    (∀ label d e, Declares lines label d → Declares lines label e → e.line < d.line →
      ∃ r, Redeclared (Declares lines) d.address r ∧ r.label = label ∧ r.line = d.line) ∧
    (∀ x, x ∈ a.diagnostics ∧ x.isAbout .duplicate = true ↔ ∃ counter d,
      Latest Redeclaration.line (Redeclared (Declares lines) counter) d ∧ d.diagnostic = x) ∧
    (∀ counter d, Redeclared (Declares lines) counter d → ∃ last,
      Latest Redeclaration.line (Redeclared (Declares lines) counter) last ∧
        d.line ≤ last.line) ∧
    (∀ x, x ∈ a.diagnostics ∧ x.isAbout .invalid = true ↔ ∃ word line,
      Latest id (Misnames lines word) line ∧ ⟨.wholeLine line, .invalidLabel word⟩ = x) ∧
    (∀ word line, Misnames lines word line → ∃ last,
      Latest id (Misnames lines word) last ∧ line ≤ last) := by
  intro lines
  have hrecords := records_bindings text
  refine ⟨fun label d e hd he => exists_redeclared hd he, ?_, ?_, ?_, ?_⟩
  · intro x
    rw [← List.mem_filter, filter_isAbout h, filter_labelReport_duplicate, resolve_eq, List.mem_map]
    constructor
    · rintro ⟨d, hd, hshown⟩
      obtain ⟨counter, hcounter⟩ := (Table.mem_values_iff _ d).mp hd
      exact ⟨counter, d, (hrecords.duplicates counter d).mp hcounter, hshown⟩
    · rintro ⟨counter, d, hlatest, hshown⟩
      have hcounter := (hrecords.duplicates counter d).mpr hlatest
      exact ⟨d, (Table.mem_values_iff _ d).mpr ⟨counter, hcounter⟩, hshown⟩
  · intro counter d hd
    exact exists_latest_below (fun e he => lt_length_of_getElem? he.here.named) hd
  · intro x
    rw [← List.mem_filter, filter_isAbout h, filter_labelReport_invalid, resolve_eq, List.mem_map,
      Prod.exists]
    simp only [Bindings.tables, Table.mem_entries_iff, hrecords.invalid]
    rfl
  · intro word line hline
    exact exists_latest_below (fun n hn => lt_length_of_getElem? hn.named) hline

/-- A redeclaration and an invalid label are reported although the limit leaves no budget. -/
theorem label_problems_reported_unbounded :
    let text : Text := .ofString "A, DEC 1\nA, DEC 2\nLOOP, CLA\nEND"
    ∃ a, run 1 text = .ok a ∧ a.gated = [] ∧
      ⟨.wholeLine 1, .duplicateLabel (.ofString "A") 1⟩ ∈ a.diagnostics ∧
      ⟨.wholeLine 2, .invalidLabel (.ofString "LOOP")⟩ ∈ a.diagnostics := by
  intro text
  have heval : (run 1 text).toOption.map gated = some [] := by decide +kernel
  cases hrun : run 1 text with
  | error f =>
      rw [hrun] at heval
      cases heval
  | ok a =>
      rw [hrun, Except.toOption, Option.map_some, Option.some.injEq] at heval
      obtain ⟨-, hduplicate, -, hinvalid, -⟩ := label_problems_reported hrun
      have hlatest := ((records_bindings text).duplicates 1 ⟨.ofString "A", 1, ⟨0, 0⟩⟩).mp
        (by decide +kernel)
      have hlast := ((records_bindings text).invalid (.ofString "LOOP") 2).mp (by decide +kernel)
      exact ⟨a, rfl, heval, ((hduplicate _).mpr ⟨1, _, hlatest, rfl⟩).1,
        ((hinvalid _).mpr ⟨_, 2, hlast, rfl⟩).1⟩

/-- An origin brings the counter back, and the first of two redeclarations with one counter is not
reported. Of two lines with one invalid label the first is not reported. -/
theorem earlier_label_problems_lost :
    let text : Text := .ofString
      "A, DEC 1\nORG 5\nA, DEC 2\nORG 4\nLDA A\nA, DEC 3\nLOOP, CLA\nLOOP, HLT\nEND"
    let lines := sourceLines text
    ∃ a, run 100 text = .ok a ∧
      (Declares lines (.ofString "A") ⟨0, 0⟩ ∧ Declares lines (.ofString "A") ⟨5, 2⟩ ∧
        ∀ x ∈ a.diagnostics, x.isAbout .duplicate = true → x.range ≠ .wholeLine 2) ∧
      (Misnames lines (.ofString "LOOP") 6 ∧
        ∀ x ∈ a.diagnostics, x.isAbout .invalid = true → x.range ≠ .wholeLine 6) := by
  intro text lines
  have heval : (run 100 text).toOption.map (fun a =>
      a.diagnostics.all fun x => !(x.isAbout .duplicate && x.range == .wholeLine 2) &&
        !(x.isAbout .invalid && x.range == .wholeLine 6)) = some true := by
    decide +kernel
  cases hrun : run 100 text with
  | error f =>
      rw [hrun] at heval
      cases heval
  | ok a =>
      simp only [hrun, Except.toOption, Option.map_some, Option.some.injEq,
        List.all_eq_true] at heval
      have hlines : lines = [⟨0, .ofString "A, DEC 1"⟩, ⟨1, .ofString "ORG 5"⟩,
          ⟨2, .ofString "A, DEC 2"⟩, ⟨3, .ofString "ORG 4"⟩, ⟨4, .ofString "LDA A"⟩,
          ⟨5, .ofString "A, DEC 3"⟩, ⟨6, .ofString "LOOP, CLA"⟩, ⟨7, .ofString "LOOP, HLT"⟩,
          ⟨8, .ofString "END"⟩] := by decide +kernel
      rw [hlines]
      refine ⟨a, rfl, ⟨?_, ?_, ?_⟩, ?_, ?_⟩
      · exact ⟨rfl, ⟨_, rfl, by decide +kernel⟩, by decide⟩
      · exact ⟨by decide +kernel, ⟨_, rfl, by decide +kernel⟩, by decide⟩
      · intro x hx habout hrange
        simpa [habout, hrange] using (heval x hx)
      · exact ⟨⟨6, by decide +kernel⟩, ⟨_, rfl, by decide +kernel⟩, by decide, by decide, by decide⟩
      · intro x hx habout hrange
        simpa [habout, hrange] using (heval x hx)

end Analysis

end TeachAsm
