import TeachAsm.Proofs.LeadingNumerals
import TeachAsm.Proofs.Truncation

/-!
# Silence

When an analysis reports nothing. Each pass is silent exactly if its lines, its cells or its labels
satisfy a condition that does not mention the scan: how it ends, what it remembers and which
entries its tables lose has no bearing.
-/

namespace TeachAsm

private theorem Finding.ofCheck_eq_nil_iff {range : Range} {check : Except Fault (Option Problem)} :
    Finding.ofCheck range check = [] ↔ check = .ok none := by
  cases check with
  | error f => simp [ofCheck]
  | ok p => cases p <;> simp [ofCheck]

theorem spellingFindings_eq_nil_iff {lines : List Line} :
    spellingFindings lines = [] ↔
      ∀ l ∈ aboveEnd lines, l.isBlank = false → l.mnemonic?.isSome = true := by
  simp [spellingFindings, Line.isMisspelt, Option.isSome_iff_ne_none]

private theorem belowFindings_eq_nil_iff {lines : List Line} :
    belowFindings lines = [] ↔ ∀ l ∈ lines, l.isBlank = true := by
  simp [belowFindings]

theorem sourceFindings_eq_nil_iff {lines : List Line} :
    sourceFindings lines = [] ↔
      (∀ l ∈ aboveEnd lines, l.isBlank = false → l.operandProblem = .ok none) ∧
      (∀ l ∈ belowEnd lines, l.isBlank = true) ∧
      (∃ l ∈ lines, l.states .END = true) ∧
      ∃ l ∈ aboveEnd lines, l.states .HLT = true := by
  have hoperands (l : Line) :
      l.operandFindings = [] ↔ (l.isBlank = false → l.operandProblem = .ok none) := by
    cases hb : l.isBlank <;> simp [Line.operandFindings, hb, Finding.ofCheck_eq_nil_iff]
  simp only [sourceFindings, scanFindings, List.append_eq_nil_iff, List.flatMap_eq_nil_iff,
    hoperands, belowFindings_eq_nil_iff, Finding.ofCheck_eq_nil_iff, Except.ok.injEq,
    ite_eq_left_iff, reduceCtorEq, imp_false, Bool.false_or, List.any_eq_true, not_not]

theorem value_of_address? {s : Text} {address : Nat} (h : address? s = some address) :
    Radix.hexadecimal.value s = address := by
  simp only [address?, Option.ite_none_right_eq_some, Option.some.injEq] at h
  exact h.2

namespace Line

variable {l : Line}

theorem states_iff {m : Mnemonic} :
    l.states m = true ↔ l.isBlank = false ∧ l.mnemonic? = some m := by
  simp [states]

theorem operandProblem_of_origin (h : l.mnemonic? = some .ORG) :
    l.operandProblem = .ok none ↔
      l.words.length = 2 ∧ (address? l.operandWord).isSome = true := by
  cases haddress : address? l.operandWord with
  | none =>
      simp only [operandProblem, h, haddress, Option.isNone_none, Bool.true_or, if_true]
      split <;> simp
  | some a =>
      have hword : 1 < l.words.length := by
        by_contra hshort
        have hmissing : l.operandWord = [] := by
          rw [operandWord, List.getD_eq_getElem?_getD, List.getElem?_eq_none (by omega)]
          rfl
        rw [hmissing] at haddress
        cases haddress
      have hone : l.words.length ≠ 1 := by omega
      simp only [operandProblem, h, haddress, hone, if_false, Option.isNone_some, Bool.false_or,
        decide_eq_true_eq, Except.ok.injEq, ite_eq_right_iff, reduceCtorEq, imp_false,
        Option.isSome_some, and_true]
      omega

theorem operandProblem_of_decimal (h : l.mnemonic? = some .DEC) :
    l.operandProblem = .ok none ↔ ∃ n, decimalWord l.operand = .ok (some n) := by
  cases hvalue : decimalWord l.operand with
  | error e => simp [operandProblem, h, hvalue]
  | ok n => cases n <;> simp [operandProblem, h, hvalue]

theorem operandProblem_of_hexadecimal (h : l.mnemonic? = some .HEX) :
    l.operandProblem = .ok none ↔ ∃ n, hexWord? l.operand = some n := by
  cases hvalue : hexWord? l.operand <;> simp [operandProblem, h, hvalue]

theorem operandProblem_of_not_pseudo {m : Mnemonic} (h : l.mnemonic? = some m)
    (hm : m.family ≠ .pseudo) :
    l.operandProblem = .ok (if m.family = .memoryReference ∧ 2 < l.words.length ∧
      l.words.getD 2 [] ≠ indirectMark then some .invalidMark else none) := by
  cases m with
  | ORG | DEC | HEX => exact absurd rfl hm
  | _ =>
      simp only [operandProblem, h]
      split <;> rfl

theorem operandProblem_of_reference (h : l.isReference = true) :
    l.operandProblem = .ok none ↔ ∀ word, l.words[2]? = some word → word = indirectMark := by
  obtain ⟨m, hfamily, hm⟩ := Family.exists_mnemonic h
  have hmark : (2 < l.words.length ∧ l.words.getD 2 [] ≠ indirectMark) ↔
      ¬ ∀ word, l.words[2]? = some word → word = indirectMark := by
    cases hword : l.words[2]? with
    | none =>
        have hlength := List.getElem?_eq_none_iff.mp hword
        simp [Nat.not_lt.mpr hlength]
    | some word =>
        have hlength := (List.getElem?_eq_some_iff.mp hword).1
        rw [List.getD_eq_getElem?_getD, hword]
        simp [hlength]
  rw [operandProblem_of_not_pseudo hm (by simp [hfamily])]
  simp only [hfamily, true_and, hmark, Except.ok.injEq, ite_eq_right_iff, reduceCtorEq, imp_false,
    not_not]

theorem origin?_of_address? {a : Nat} (hstates : l.states .ORG = true)
    (h : address? l.operandWord = some a) : l.origin? = some (a : Int) := by
  rw [origin?, if_pos hstates, Radix.leading?_of_leads (leads_operand_of_address? h),
    Numeral.value_absent, value_of_address? h]

end Line

theorem Table.find?_concat {κ ν : Type} [DecidableEq κ] (key k : κ) (value : ν)
    (entries : List (κ × ν)) :
    Table.find? key (entries ++ [(k, value)]) =
      (Table.find? key entries).or (if k = key then some value else none) := by
  induction entries with
  | nil => simp [Table.find?]
  | cons e rest ih =>
      rw [List.cons_append, Table.find?, Table.find?, ih]
      split <;> rfl

theorem originFindings_eq_nil_iff {seen : List (Int × Nat)} {lines : List Line} :
    originFindings seen lines = [] ↔ (lines.filterMap Line.origin?).Nodup ∧
      ∀ origin ∈ lines.filterMap Line.origin?, Table.find? origin seen = none := by
  induction lines generalizing seen with
  | nil => simp [originFindings]
  | cons l rest ih =>
      rw [originFindings]
      cases horigin : l.origin? with
      | none =>
          rw [List.filterMap_cons_none horigin]
          exact ih
      | some origin =>
          rw [List.filterMap_cons_some horigin, List.nodup_cons]
          cases hseen : Table.find? origin seen with
          | some firstLine => simp [hseen]
          | none =>
              simp only [hseen, ih, Table.find?_concat, Option.or_eq_none_iff, ite_eq_right_iff,
                reduceCtorEq, imp_false, List.forall_mem_cons, true_and]
              constructor
              · rintro ⟨hnodup, hall⟩
                exact ⟨⟨fun hmem => (hall origin hmem).2 rfl, hnodup⟩, fun o ho => (hall o ho).1⟩
              · rintro ⟨⟨hnew, hnodup⟩, hall⟩
                exact ⟨hnodup, fun o ho => ⟨hall o ho, fun heq => hnew (heq ▸ ho)⟩⟩

theorem cellFormFindings_eq_nil_iff {cells : List (Nat × Cell)}
    (h : ∀ e ∈ cells, e.2.mentionsOrigin = false ∧ e.2.endsScan = false) :
    cellFormFindings 0 cells = [] ↔ ∀ e ∈ cells, e.2.formProblem? = none := by
  induction cells with
  | nil => simp [cellFormFindings]
  | cons e rest ih =>
      obtain ⟨horigin, hend⟩ := h e List.mem_cons_self
      have hrest := ih fun e he => h e (List.mem_cons_of_mem _ he)
      simp only [cellFormFindings, Nat.not_lt_zero, hend, horigin, Bool.false_eq_true, if_false,
        List.append_eq_nil_iff, Finding.ofCheck_eq_nil_iff, Except.ok.injEq, hrest,
        List.forall_mem_cons]

theorem cellLogicFindings_eq_nil_iff {image : Image} {cells : List (Nat × Cell)}
    (h : ∀ e ∈ cells, e.2.endsScan = false) :
    cellLogicFindings image cells = [] ↔
      ∀ e ∈ cells, image.logicProblem e.1 e.2 = .ok none := by
  have hall : cells.takeWhile (fun e => !e.2.endsScan) = cells := by
    rw [List.takeWhile_eq_self_iff]
    intro e he
    rw [h e he]
    rfl
  rw [cellLogicFindings, hall, List.flatMap_eq_nil_iff]
  simp only [Finding.ofCheck_eq_nil_iff]

namespace Image

def HoldsLiteral (image : Image) (address value : Int) : Prop :=
  isAddress address = true ∧ (image.cell address.toNat).literal = .ok (some value)

/-- A literal stands at the target or, with indirect addressing, at the address that the literal at
the target gives. -/
def LeadsToLiteral (image : Image) (target : Int) (indirect : Bool) : Prop :=
  if indirect then ∃ pointer value, image.HoldsLiteral target pointer ∧
    image.HoldsLiteral pointer value
  else ∃ value, image.HoldsLiteral target value

theorem leadsToLiteral_iff {image : Image} {target : Int} {indirect : Bool} :
    image.leadsToLiteral target indirect = .ok true ↔ image.LeadsToLiteral target indirect := by
  unfold leadsToLiteral LeadsToLiteral HoldsLiteral
  cases htarget : isAddress target with
  | false => simp [pure, Except.pure]
  | true =>
      rw [image.fetch_of_isAddress htarget]
      cases hvalue : (image.cell target.toNat).literal with
      | error e => simp [Cell.value, hvalue, bind, Except.bind, Except.mapError]
      | ok value =>
          cases value with
          | none => cases indirect <;>
              simp [Cell.value, hvalue, bind, Except.bind, Except.mapError, pure, Except.pure]
          | some pointer =>
              cases indirect with
              | false =>
                  simp [Cell.value, hvalue, bind, Except.bind, Except.mapError, pure, Except.pure]
              | true =>
                  cases hpointer : isAddress pointer with
                  | false =>
                      simp [Cell.value, hvalue, hpointer, bind, Except.bind, Except.mapError, pure,
                        Except.pure]
                  | true =>
                      have hfetch := image.fetch_of_isAddress hpointer
                      cases hsecond : (image.cell pointer.toNat).literal with
                      | error e =>
                          simp [Cell.value, hvalue, hpointer, hfetch, hsecond, bind, Except.bind,
                            Except.mapError]
                      | ok value =>
                          simp [Cell.value, hvalue, hpointer, hfetch, hsecond, bind, Except.bind,
                            Except.mapError, pure, Except.pure, Option.isSome_iff_exists]

theorem logicProblem_of_reference {image : Image} {c : Cell} {target : Int} (address : Nat)
    (hkind : c.kind = .reference) (htarget : c.target = some target) :
    image.logicProblem address c = .ok none ↔ image.LeadsToLiteral target c.indirect := by
  rw [← leadsToLiteral_iff, logicProblem, hkind, htarget]
  dsimp only
  cases image.leadsToLiteral target c.indirect with
  | error f => simp [Except.map]
  | ok leads => cases leads <;> simp [Except.map]

end Image

section

variable {κ ν : Type} [DecidableEq κ]

private theorem Table.entries_eq_nil_iff {t : Table κ ν} :
    t.entries = [] ↔ ∀ key, t.get? key = none := by
  constructor
  · intro h key
    rw [get?, h, find?]
  · intro h
    cases hentries : t.entries with
    | nil => rfl
    | cons e rest =>
        have hfirst := h e.1
        rw [get?, hentries, find?, if_pos rfl] at hfirst
        cases hfirst

private theorem Table.entries_assign_ne_nil (t : Table κ ν) (key : κ) (value : ν) :
    (t.assign key value).entries ≠ [] := by
  intro h
  have hnone := entries_eq_nil_iff.mp h key
  simp at hnone

end

/-- What stands for a label on the line is one. -/
def Line.declares (l : Line) : Bool := l.hasLabel && isLabel l.label

def declaredLabels (lines : List Line) : List Text := (lines.filter Line.declares).map Line.label

theorem declaredLabels_cons_of_declares {l : Line} (h : l.declares = true) (rest : List Line) :
    declaredLabels (l :: rest) = l.label :: declaredLabels rest := by
  simp [declaredLabels, h]

theorem declaredLabels_cons_of_not_declares {l : Line} (h : l.declares = false)
    (rest : List Line) : declaredLabels (l :: rest) = declaredLabels rest := by
  simp [declaredLabels, h]

namespace Bindings

theorem enter_of_declares {p : Placement} (h : p.line.declares = true) (b : Bindings) :
    b.enter p = b.declare p.line.label ⟨p.address, p.line.index⟩ := by
  obtain ⟨hlabel, hvalid⟩ : p.line.hasLabel = true ∧ isLabel p.line.label = true := by
    simpa [Line.declares] using h
  simp [enter, hlabel, hvalid]

theorem enter_of_not_declares {p : Placement} (h : p.line.declares = false) (b : Bindings) :
    (b.enter p).labels = b.labels ∧ (b.enter p).duplicates = b.duplicates := by
  unfold enter
  dsimp only
  split
  · exact ⟨rfl, rfl⟩
  · split
    · next hlabel hvalid => simp_all [Line.declares]
    · exact ⟨rfl, rfl⟩

private theorem invalid_enter_eq_nil_iff {b : Bindings} {p : Placement} :
    (b.enter p).invalid.entries = [] ↔
      b.invalid.entries = [] ∧ (p.line.hasLabel = true → isLabel p.line.label = true) := by
  unfold enter
  dsimp only
  split
  · next hlabel => simp_all
  · split
    · next hvalid => simp [declare, hvalid]
    · next hlabel hvalid =>
        simp only [Bool.not_eq_true', Bool.not_eq_false] at hlabel
        simp [b.invalid.entries_assign_ne_nil, hlabel, hvalid]

variable {placements : List Placement} {b : Bindings}

private theorem invalid_foldl_eq_nil_iff :
    (placements.foldl enter b).invalid.entries = [] ↔ b.invalid.entries = [] ∧
      ∀ p ∈ placements, p.line.hasLabel = true → isLabel p.line.label = true := by
  induction placements generalizing b with
  | nil => simp
  | cons p rest ih =>
      rw [List.foldl_cons, ih, invalid_enter_eq_nil_iff, List.forall_mem_cons, and_assoc]

private theorem isSome_labels_foldl {label : Text} :
    ((placements.foldl enter b).labels.get? label).isSome = true ↔
      (b.labels.get? label).isSome = true ∨
        label ∈ declaredLabels (placements.map Placement.line) := by
  induction placements generalizing b with
  | nil => simp [declaredLabels]
  | cons p rest ih =>
      rw [List.foldl_cons, ih, List.map_cons]
      cases hdeclares : p.line.declares with
      | false =>
          rw [(enter_of_not_declares hdeclares b).1, declaredLabels_cons_of_not_declares hdeclares]
      | true =>
          rw [enter_of_declares hdeclares, declaredLabels_cons_of_declares hdeclares, declare]
          by_cases hlabel : label = p.line.label
          · simp [hlabel]
          · simp [hlabel]

/-- The table of redeclarations keeps one per counter value, but it is empty only if there is
none. -/
private theorem duplicates_foldl_eq_nil_iff :
    (placements.foldl enter b).duplicates.entries = [] ↔ b.duplicates.entries = [] ∧
      (declaredLabels (placements.map Placement.line)).Nodup ∧
      ∀ label ∈ declaredLabels (placements.map Placement.line), b.labels.get? label = none := by
  induction placements generalizing b with
  | nil => simp [declaredLabels]
  | cons p rest ih =>
      rw [List.foldl_cons, ih, List.map_cons]
      cases hdeclares : p.line.declares with
      | false =>
          obtain ⟨hlabels, hduplicates⟩ := enter_of_not_declares hdeclares b
          rw [hlabels, hduplicates, declaredLabels_cons_of_not_declares hdeclares]
      | true =>
          rw [enter_of_declares hdeclares, declaredLabels_cons_of_declares hdeclares, declare,
            List.nodup_cons, List.forall_mem_cons]
          cases hprevious : b.labels.get? p.line.label with
          | some previous => simp [Table.entries_assign_ne_nil]
          | none =>
              have hassign (label : Text) (d : Declaration) :
                  (b.labels.assign p.line.label d).get? label = none ↔
                    label ≠ p.line.label ∧ b.labels.get? label = none := by
                rw [Table.get?_assign]
                split <;> simp [*]
              simp only [hassign, true_and, and_congr_right_iff]
              intro _
              constructor
              · rintro ⟨hnodup, hall⟩
                exact ⟨⟨fun hmem => (hall _ hmem).1 rfl, hnodup⟩, fun l hl => (hall l hl).2⟩
              · rintro ⟨⟨hnew, hnodup⟩, hall⟩
                exact ⟨hnodup, fun l hl => ⟨fun heq => hnew (heq ▸ hl), hall l hl⟩⟩

end Bindings

private theorem get?_foldl_erase_eq_none_iff {placements : List Placement} {unused : Table Text Nat}
    {label : Text} :
    (placements.foldl (fun unused p => if p.line.isReference then unused.erase p.line.operandWord
      else unused) unused).get? label = none ↔
      unused.get? label = none ∨
        ∃ p ∈ placements, p.line.isReference = true ∧ p.line.operandWord = label := by
  induction placements generalizing unused with
  | nil => simp
  | cons p rest ih =>
      rw [List.foldl_cons, ih, List.exists_mem_cons_iff, ← or_assoc]
      refine or_congr ?_ Iff.rfl
      cases hreference : p.line.isReference with
      | false => simp
      | true =>
          rw [if_pos rfl, Table.get?_erase]
          by_cases hlabel : label = p.line.operandWord
          · simp [hlabel]
          · simp [hlabel, Ne.symm hlabel]

private theorem unusedIn_eq_nil_iff {r : Resolution} {placements : List Placement} :
    (r.unusedIn placements).entries = [] ↔ ∀ label, (r.unused.get? label).isSome = true →
      ∃ p ∈ placements, p.line.isReference = true ∧ p.line.operandWord = label := by
  rw [Table.entries_eq_nil_iff]
  refine forall_congr' fun label => ?_
  rw [Resolution.unusedIn, get?_foldl_erase_eq_none_iff, Option.isSome_iff_ne_none]
  exact or_iff_not_imp_left

private theorem labelReport_eq_nil_iff {r : Resolution} {unused : Table Text Nat} :
    labelReport r unused = [] ↔
      r.duplicates.entries = [] ∧ unused.entries = [] ∧ r.invalid.entries = [] := by
  simp [labelReport, Table.values]

namespace Analysis

/-- All that an analysis of a silent text does is to note its limit. -/
theorem analyze_of_silent {text : Text} (hfindings : textFindings text = [])
    (hlabels : textLabels text = []) (limit : Int) :
    analyze limit text = if canNote limit text then .ok [] else .error .unwritable := by
  have hcollect : collect ((textFindings text).take (limit - 1).toNat) = .ok [] := by
    rw [hfindings, List.take_nil]
    rfl
  cases hnote : canNote limit text with
  | true =>
      obtain ⟨a, ha, hgated⟩ := run_of_collect hcollect hnote
      rw [analyze, ha, Except.map, diagnostics, hgated, labels_run ha, hlabels]
      rfl
  | false =>
      rw [analyze, run_unwritable hcollect hnote]
      rfl

/-- From the limit 2 on there is room for a finding, so silence says that there is none. -/
theorem silent_of_analyze {limit : Int} {text : Text} (hlimit : 2 ≤ limit)
    (h : analyze limit text = .ok []) : textFindings text = [] ∧ textLabels text = [] := by
  cases hrun : run limit text with
  | error f =>
      rw [analyze, hrun] at h
      cases h
  | ok a =>
      rw [analyze, hrun, Except.map, Except.ok.injEq, diagnostics, List.append_eq_nil_iff] at h
      refine ⟨?_, labels_run hrun ▸ h.2⟩
      have hcollect := (collect_of_run hrun).1
      obtain ⟨n, hn⟩ : ∃ n, (limit - 1).toNat = n + 1 := ⟨(limit - 2).toNat, by omega⟩
      rw [h.1, hn] at hcollect
      cases hfindings : textFindings text with
      | nil => rfl
      | cons finding rest =>
          rw [hfindings, List.take_succ_cons] at hcollect
          cases finding with
          | fault f => cases hcollect
          | problem d =>
              rw [collect] at hcollect
              cases hrest : collect (rest.take n) <;> rw [hrest] at hcollect <;> cases hcollect

end Analysis

namespace Line

def occupies (l : Line) : Bool := l.statementStep == .occupy

/-- A statement with a label, or with what stands for one. -/
def isLabelled (l : Line) : Bool := !l.isBlank && l.hasLabel

theorem statementStep_eq_stop_iff {l : Line} :
    l.statementStep = .stop ↔ l.states .END = true := by
  unfold statementStep states
  cases l.isBlank with
  | true => simp
  | false =>
      rw [if_neg (by simp)]
      split <;> simp_all

theorem occupies_of_isLabelled {l : Line} (hcontested : l.isContested = false)
    (h : l.isLabelled = true) : l.occupies = true := by
  obtain ⟨hblank, hlabel⟩ : l.isBlank = false ∧ l.hasLabel = true := by
    simpa [isLabelled] using h
  rw [occupies, (steps_of_hasLabel hlabel hblank hcontested).2]
  rfl

end Line

theorem states_end_of_mem_aboveEnd {lines : List Line} {l : Line} (h : l ∈ aboveEnd lines) :
    l.states .END = false := by
  simpa using List.mem_takeWhile_imp h

theorem map_line_place (counter : Nat) (lines : List Line) :
    (place Line.statementStep counter lines).map Placement.line =
      (aboveEnd lines).filter Line.occupies := by
  induction lines generalizing counter with
  | nil => rfl
  | cons l rest ih =>
      have hstop := l.statementStep_eq_stop_iff
      rw [place]
      cases hstep : l.statementStep with
      | stop =>
          rw [aboveEnd_cons_of_end rest (hstop.mp hstep)]
          rfl
      | _ =>
          have hend : l.states .END = false := by simpa [hstep] using hstop
          rw [aboveEnd_cons rest hend]
          simp [Line.occupies, hstep, ih]

theorem bindings_eq_foldl {lines : List Line} (hcontested : ∀ l ∈ lines, l.isContested = false) :
    bindings lines = (statements lines).foldl Bindings.enter {} := by
  have hagree := place_congr 0 fun l hl => Line.labelStep_eq_statementStep (hcontested l hl)
  rw [bindings, hagree, statements]

/-- The report on labels is about the lines that take a word, if the two walks agree on them. -/
theorem labelReport_load_eq_nil_iff {lines : List Line}
    (hcontested : ∀ l ∈ lines, l.isContested = false) :
    let placed := (aboveEnd lines).filter Line.occupies
    labelReport (resolve lines) (load lines (resolve lines)).unused = [] ↔
      (∀ l ∈ placed, l.hasLabel = true → isLabel l.label = true) ∧
      (declaredLabels placed).Nodup ∧
      ∀ label ∈ declaredLabels placed,
        ∃ l ∈ placed, l.isReference = true ∧ l.operandWord = label := by
  intro placed
  have hplaced : (statements lines).map Placement.line = placed := map_line_place 0 lines
  have hwalk := bindings_eq_foldl hcontested
  have hnothing (label : Text) : ({} : Bindings).labels.get? label = none := rfl
  have hlabels (label : Text) : ((bindings lines).tables.unused.get? label).isSome = true ↔
      label ∈ declaredLabels placed := by
    rw [Bindings.tables, Table.get?_mapValues, Option.isSome_map, hwalk,
      Bindings.isSome_labels_foldl, hplaced]
    exact or_iff_right (by rw [hnothing label]; simp)
  have hused (label : Text) : (∃ p ∈ statements lines, p.line.isReference = true ∧
      p.line.operandWord = label) ↔ ∃ l ∈ placed, l.isReference = true ∧ l.operandWord = label := by
    simp [← hplaced]
  have hduplicates : (bindings lines).tables.duplicates.entries = [] ↔
      (declaredLabels placed).Nodup := by
    rw [Bindings.tables, hwalk, Bindings.duplicates_foldl_eq_nil_iff, hplaced]
    exact ⟨fun h => h.2.1, fun h => ⟨rfl, h, fun label _ => hnothing label⟩⟩
  have hinvalid : (bindings lines).tables.invalid.entries = [] ↔
      ∀ l ∈ placed, l.hasLabel = true → isLabel l.label = true := by
    rw [Bindings.tables, hwalk, Bindings.invalid_foldl_eq_nil_iff,
      ← List.forall_mem_map (P := fun l : Line => l.hasLabel = true → isLabel l.label = true),
      hplaced]
    exact and_iff_right rfl
  rw [labelReport_eq_nil_iff, load_unused, resolve_eq, unusedIn_eq_nil_iff, hduplicates, hinvalid]
  simp only [hlabels, hused]
  exact ⟨fun h => ⟨h.2.2, h.1, h.2.1⟩, fun h => ⟨h.2.1, h.2.2, h.1⟩⟩

end TeachAsm
