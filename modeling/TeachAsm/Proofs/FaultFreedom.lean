import TeachAsm.Proofs.DigitRuns
import TeachAsm.Proofs.Truncation
import TeachAsm.Proofs.WalkAgreement

/-!
# Failures of an analysis

An analysis fails only on decimal digits that are too many: digits of the document, or those of the
limit that it notes in the end. Every other operation that may fail is used inside its domain:
declarations of labels, targets of references, cells by position, the place of `ORG` in a text, and
hexadecimal conversions.
-/

namespace TeachAsm

private theorem fault_mem_ofCheck {range : Range} {check : Except Fault (Option Problem)}
    {f : Fault} (h : .fault f ∈ Finding.ofCheck range check) : check = .error f := by
  match check with
  | .error f' =>
      simp only [Finding.ofCheck, List.mem_singleton, Finding.fault.injEq] at h
      rw [h]
  | .ok (some p) => simp [Finding.ofCheck] at h
  | .ok none => simp [Finding.ofCheck] at h

private theorem fault_not_mem_spellingFindings (lines : List Line) (f : Fault) :
    .fault f ∉ spellingFindings lines := by
  simp [spellingFindings]

private theorem fault_not_mem_belowFindings (lines : List Line) (f : Fault) :
    .fault f ∉ belowFindings lines := by
  simp [belowFindings]

private theorem fault_not_mem_originFindings (seen : List (Int × Nat)) (lines : List Line)
    (f : Fault) : .fault f ∉ originFindings seen lines := by
  induction lines generalizing seen with
  | nil => simp [originFindings]
  | cons l rest ih =>
      rw [originFindings]
      split
      · exact ih seen
      · split
        · exact ih _
        · simp [ih seen]

private theorem fault_mem_sourceFindings {lines : List Line} {f : Fault}
    (h : .fault f ∈ sourceFindings lines) : ∃ l ∈ lines, l.operandProblem = .error f := by
  simp only [sourceFindings, scanFindings, List.mem_append, List.mem_flatMap] at h
  rcases h with ⟨l, hl, hf⟩ | hf | hf | hf
  · refine ⟨l, List.takeWhile_subset _ hl, ?_⟩
    unfold Line.operandFindings at hf
    split at hf
    · cases hf
    · exact fault_mem_ofCheck hf
  · exact absurd hf (fault_not_mem_belowFindings _ f)
  · cases fault_mem_ofCheck hf
  · cases fault_mem_ofCheck hf

private theorem fault_mem_cellFormFindings {first : Nat} {cells : List (Nat × Cell)} {f : Fault}
    (h : .fault f ∈ cellFormFindings first cells) :
    ∃ e ∈ cells, e.2.mentionsOrigin = true ∧ originJump e.2.text = .error f := by
  induction cells generalizing first with
  | nil => cases h
  | cons e rest ih =>
      obtain ⟨address, c⟩ := e
      have later {first : Nat} (h : .fault f ∈ cellFormFindings first rest) :
          ∃ e ∈ (address, c) :: rest, e.2.mentionsOrigin = true ∧
            originJump e.2.text = .error f := by
        obtain ⟨e, he, hfault⟩ := ih h
        exact ⟨e, List.mem_cons_of_mem _ he, hfault⟩
      rw [cellFormFindings] at h
      split at h
      · exact later h
      split at h
      · cases h
      split at h
      · next hmentions =>
          cases hjump : originJump c.text with
          | error f' =>
              simp only [hjump, List.mem_singleton, Finding.fault.injEq] at h
              exact ⟨(address, c), List.mem_cons_self, hmentions, by rw [h]; exact hjump⟩
          | ok jump? =>
              rw [hjump] at h
              cases jump? with
              | none => cases h
              | some jump =>
                  simp only at h
                  split at h
                  · cases h
                  · exact later h
      · rcases List.mem_append.mp h with h | h
        · cases fault_mem_ofCheck h
        · exact later h

private theorem fault_mem_cellLogicFindings {image : Image} {cells : List (Nat × Cell)} {f : Fault}
    (h : .fault f ∈ cellLogicFindings image cells) :
    ∃ e ∈ cells, image.logicProblem e.1 e.2 = .error f := by
  obtain ⟨e, he, hf⟩ := List.mem_flatMap.mp h
  exact ⟨e, List.takeWhile_subset _ he, fault_mem_ofCheck hf⟩

private theorem fault_mem_findings {lines : List Line} {image : Image} {f : Fault}
    (h : .fault f ∈ Analysis.findings lines image) :
    (∃ l ∈ lines, l.operandProblem = .error f) ∨
      (∃ e ∈ image.cells, e.2.mentionsOrigin = true ∧ originJump e.2.text = .error f) ∨
      ∃ e ∈ image.cells, image.logicProblem e.1 e.2 = .error f := by
  simp only [Analysis.findings, formFindings, logicFindings, List.mem_append] at h
  rcases h with h | (h | h) | (h | h)
  · exact absurd h (fault_not_mem_spellingFindings _ f)
  · exact .inl (fault_mem_sourceFindings h)
  · exact .inr (.inl (fault_mem_cellFormFindings h))
  · exact absurd h (fault_not_mem_originFindings _ _ f)
  · exact .inr (.inr (fault_mem_cellLogicFindings h))

private theorem fault_mem_of_collect {findings : List Finding} {f : Fault}
    (h : collect findings = .error f) : .fault f ∈ findings := by
  induction findings with
  | nil => cases h
  | cons finding rest ih =>
      cases finding with
      | fault f' =>
          simp only [collect, Except.error.injEq] at h
          rw [h]
          exact List.mem_cons_self
      | problem d =>
          cases hrest : collect rest with
          | ok ds =>
              simp only [collect, hrest] at h
              cases h
          | error f' =>
              simp only [collect, hrest, Except.map, Except.error.injEq] at h
              exact List.mem_cons_of_mem _ (ih (by rw [hrest, h]))

private theorem Analysis.fault_mem_of_run {limit : Int} {text : Text} {f : Fault}
    (h : run limit text = .error f) :
    .fault f ∈ textFindings text ∨ f = .unwritable ∧ canNote limit text = false := by
  cases hc : collect ((textFindings text).take (limit - 1).toNat) with
  | error f' =>
      have hledger := ledger_run_eq_collect limit text
      rw [h, hc, Except.map, Except.bind, Except.error.injEq] at hledger
      rw [hledger]
      exact .inl (List.mem_of_mem_take (fault_mem_of_collect hc))
  | ok ds =>
      cases hnote : canNote limit text with
      | true =>
          obtain ⟨a, ha, -⟩ := run_of_collect hc hnote
          rw [h] at ha
          cases ha
      | false =>
          rw [run_unwritable hc hnote, Except.error.injEq] at h
          exact .inr ⟨h.symm, rfl⟩

private theorem mem_of_mem_putCell {address : Nat} {c : Cell} {cells : List (Nat × Cell)}
    {e : Nat × Cell} (h : e ∈ putCell address c cells) : e = (address, c) ∨ e ∈ cells := by
  induction cells with
  | nil => exact .inl (List.mem_singleton.mp h)
  | cons first rest ih =>
      rw [putCell] at h
      split at h
      · exact List.mem_cons.mp h
      split at h
      · rcases List.mem_cons.mp h with h | h
        · exact .inl h
        · exact .inr (List.mem_cons_of_mem _ h)
      · rcases List.mem_cons.mp h with h | h
        · exact .inr (h ▸ List.mem_cons_self)
        · exact (ih h).imp_right (List.mem_cons_of_mem _)

namespace Image

private theorem mem_of_mem_store? {image : Image} {w e : Nat × Cell}
    (h : e ∈ ((image.store? w.1 w.2).getD image).cells) : e = w ∨ e ∈ image.cells := by
  unfold store? at h
  split at h
  · simp only [Option.getD_some, store, Int.toNat_natCast] at h
    exact mem_of_mem_putCell h
  · exact .inr h

private theorem mem_of_mem_foldl_store? {image : Image} {writes : List (Nat × Cell)}
    {e : Nat × Cell}
    (h : e ∈ (writes.foldl (fun image w => (image.store? w.1 w.2).getD image) image).cells) :
    e ∈ writes ∨ e ∈ image.cells := by
  induction writes generalizing image with
  | nil => exact .inr h
  | cons w rest ih =>
      rw [List.foldl_cons] at h
      rcases ih h with h | h
      · exact .inl (List.mem_cons_of_mem _ h)
      · rcases mem_of_mem_store? h with h | h
        · exact .inl (h ▸ List.mem_cons_self)
        · exact .inr h

theorem mem_of_mem_ofWrites {writes : List (Nat × Cell)} {e : Nat × Cell}
    (h : e ∈ (ofWrites writes).cells) : e ∈ writes := by
  rcases mem_of_mem_foldl_store? h with h | h
  · exact h
  · cases h

end Image

/-- A written cell is the cell of a statement that is laid out at its address. -/
theorem exists_placement_of_mem_cells {lines : List Line} {r : Resolution} {e : Nat × Cell}
    (h : e ∈ (load lines r).image.cells) :
    ∃ p ∈ statements lines, (p.address, p.line.cell r.symbols) = e := by
  rw [load_image] at h
  exact List.mem_map.mp (Image.mem_of_mem_ofWrites h)

theorem exists_line_of_mem_cells {lines : List Line} {r : Resolution} {e : Nat × Cell}
    (h : e ∈ (load lines r).image.cells) : ∃ l ∈ lines, e.2 = l.cell r.symbols := by
  obtain ⟨p, hp, hwrite⟩ := exists_placement_of_mem_cells h
  have hline : p.line ∈ (statements lines).map Placement.line := List.mem_map_of_mem hp
  exact ⟨p.line, (place_sublist _ _ lines).subset hline, by rw [← hwrite]⟩

theorem Line.exists_target_of_reference {l : Line} {symbols : Table Text Nat}
    (h : (l.cell symbols).kind = .reference) : ∃ target, (l.cell symbols).target = some target := by
  cases hl : l.isReference with
  | false => simp [cell, hl] at h
  | true =>
      cases htarget : l.target? symbols with
      | none => simp [cell, hl, htarget] at h
      | some target => simp [cell, hl, htarget]

theorem Cell.literal_empty : ({} : Cell).literal = .ok none := by
  decide

theorem isAddress_iff {n : Int} : isAddress n = true ↔ 0 ≤ n ∧ n < memorySize := by
  simp [isAddress]

theorem isAddress_natCast_iff {n : Nat} : isAddress (n : Int) = true ↔ n < memorySize := by
  rw [isAddress_iff]
  omega

namespace Image

theorem fetch_of_isAddress (image : Image) {n : Int} (h : isAddress n = true) :
    image.fetch n = .ok (image.cell n.toNat) := by
  have hinside := isAddress_iff.mp h
  simp [fetch, cellAt, hinside, Except.mapError]

private theorem isAddress_before {image : Image} {e : Nat × Cell} (he : e ∈ image.cells)
    {back : Nat} (hback : back ≤ e.1) : isAddress ((e.1 : Int) - back) = true := by
  have hbound := image.bounded e.1 (List.mem_map_of_mem he)
  rw [isAddress_iff]
  omega

private theorem hiddenByJump_ne_error {image : Image} {e : Nat × Cell} (he : e ∈ image.cells)
    (haddress : 2 ≤ e.1) (f : Fault) : image.hiddenByJump e.1 ≠ .error f := by
  have hjump : image.fetch ((e.1 : Int) - 1) = .ok (image.cell ((e.1 : Int) - 1).toNat) :=
    image.fetch_of_isAddress (isAddress_before he (by omega : 1 ≤ e.1))
  have hbefore : image.fetch ((e.1 : Int) - 2) = .ok (image.cell ((e.1 : Int) - 2).toNat) :=
    image.fetch_of_isAddress (isAddress_before he haddress)
  rw [hiddenByJump, hjump, hbefore]
  simp [bind, Except.bind, pure, Except.pure]

private theorem leadsToLiteral_error {image : Image} {target : Int} {indirect : Bool} {f : Fault}
    (h : image.leadsToLiteral target indirect = .error f) :
    ∃ address, (image.cell address).value = .error f := by
  unfold leadsToLiteral at h
  cases htarget : isAddress target with
  | false => simp [htarget, pure, Except.pure] at h
  | true =>
      rw [image.fetch_of_isAddress htarget] at h
      cases hvalue : (image.cell target.toNat).value with
      | error f' =>
          simp only [htarget, hvalue, Bool.not_true, Bool.false_eq_true, if_false, bind,
            Except.bind, Except.error.injEq] at h
          exact ⟨_, h ▸ hvalue⟩
      | ok value =>
          cases indirect with
          | false => simp [htarget, hvalue, bind, Except.bind, pure, Except.pure] at h
          | true =>
              cases value with
              | none => simp [htarget, hvalue, bind, Except.bind, pure, Except.pure] at h
              | some pointer =>
                  cases hpointer : isAddress pointer with
                  | false =>
                      simp [htarget, hvalue, hpointer, bind, Except.bind, pure, Except.pure] at h
                  | true =>
                      simp only [htarget, hvalue, hpointer, image.fetch_of_isAddress hpointer,
                        bind, Except.bind, pure, Except.pure] at h
                      cases hsecond : (image.cell pointer.toNat).value with
                      | ok value => simp [hsecond] at h
                      | error f' =>
                          simp only [hsecond, Bool.not_true, Bool.false_eq_true, if_false,
                            Except.error.injEq] at h
                          exact ⟨_, h ▸ hsecond⟩

end Image

private theorem longRun_of_value {lines : List Line} {r : Resolution} {address : Nat} {f : Fault}
    (h : ((load lines r).image.cell address).value = .error f) :
    ∃ e, f = .digits e ∧ ∃ l ∈ lines, LongRun l.raw e.count := by
  cases hcell : Table.find? address (load lines r).image.cells with
  | none =>
      rw [Image.cell, hcell, Option.getD_none, Cell.value, Cell.literal_empty] at h
      cases h
  | some c =>
      obtain ⟨l, hl, hc⟩ : ∃ l ∈ lines, c = l.cell r.symbols :=
        exists_line_of_mem_cells (Table.mem_of_find? hcell)
      rw [Image.cell, hcell, Option.getD_some, Cell.value, hc] at h
      cases hliteral : (l.cell r.symbols).literal with
      | ok value =>
          rw [hliteral] at h
          cases h
      | error e =>
          simp only [hliteral, Except.mapError, Except.error.injEq] at h
          exact ⟨e, h.symm, l, hl, Line.longRun_of_literal hliteral⟩

/-- The logic of a written cell fails only on digits of the document. -/
private theorem longRun_of_logicProblem {lines : List Line} {r : Resolution} {e : Nat × Cell}
    {f : Fault} (he : e ∈ (load lines r).image.cells)
    (h : (load lines r).image.logicProblem e.1 e.2 = .error f) :
    ∃ e, f = .digits e ∧ ∃ l ∈ lines, LongRun l.raw e.count := by
  -- Looking two cells back for a jump cannot fail, since it is done from address 2 on.
  have hother (h : (if e.2.mnemonic? = some .HLT ∧ 2 ≤ e.1 then
      ((load lines r).image.hiddenByJump e.1).map
        (fun hidden => if hidden then some Problem.unreachableHalt else none)
      else .ok none) = .error f) : False := by
    split at h
    · next hhalt =>
        cases hhidden : (load lines r).image.hiddenByJump e.1 with
        | ok hidden =>
            rw [hhidden] at h
            cases h
        | error f' => exact Image.hiddenByJump_ne_error he hhalt.2 f' hhidden
    · cases h
  unfold Image.logicProblem at h
  cases hkind : e.2.kind with
  | empty =>
      rw [hkind] at h
      cases h
  | unresolved =>
      rw [hkind] at h
      exact (hother h).elim
  | verbatim =>
      rw [hkind] at h
      exact (hother h).elim
  | reference =>
      obtain ⟨l, -, hc⟩ := exists_line_of_mem_cells he
      obtain ⟨target, htarget⟩ := Line.exists_target_of_reference (hc ▸ hkind)
      rw [← hc] at htarget
      simp only [hkind, htarget] at h
      cases hleads : (load lines r).image.leadsToLiteral target e.2.indirect with
      | ok leads =>
          rw [hleads] at h
          cases h
      | error f' =>
          simp only [hleads, Except.map, Except.error.injEq] at h
          obtain ⟨address, hvalue⟩ := Image.leadsToLiteral_error hleads
          exact longRun_of_value (h ▸ hvalue)

def Radix.IsNumeral (r : Radix) (s : Text) : Prop := s ≠ [] ∧ ∀ c ∈ s, r.isDigit c = true

theorem isNumeral_of_address? {s : Text} {n : Nat} (h : address? s = some n) :
    Radix.hexadecimal.IsNumeral s := by
  simp only [address?, Option.ite_none_right_eq_some, Bool.and_eq_true, Bool.not_eq_true',
    List.isEmpty_eq_false_iff, List.all_eq_true] at h
  exact h.1.1

theorem isNumeral_of_hexWord? {s : Text} {n : Int} (h : hexWord? s = some n) :
    Radix.hexadecimal.IsNumeral (takeSign (Text.strip s)).2 := by
  simp only [hexWord?, Option.ite_none_right_eq_some, Bool.and_eq_true, Bool.not_eq_true',
    List.isEmpty_eq_false_iff, List.all_eq_true] at h
  exact h.1.1

theorem Radix.isNumeral_of_leading? {r : Radix} {s : Text} {n : Int} (h : r.leading? s = some n) :
    r.IsNumeral (r.leadingDigits s).2 := by
  simp only [leading?, Option.ite_none_left_eq_some, List.isEmpty_iff] at h
  exact ⟨h.1, isDigit_leadingDigits r s⟩

namespace Analysis

private theorem longRun_of_textFindings {text : Text} {f : Fault}
    (h : .fault f ∈ textFindings text) : ∃ e, f = .digits e ∧ LongRun text e.count := by
  unfold textFindings at h
  split at h
  · cases h
  have hlines : ∃ e, f = .digits e ∧ ∃ l ∈ sourceLines text, LongRun l.raw e.count := by
    rcases fault_mem_findings h with ⟨l, hl, hf⟩ | ⟨e, he, hmentions, hf⟩ | ⟨e, he, hf⟩
    · obtain ⟨e, rfl, hrun⟩ := Line.longRun_of_operandProblem hf
      exact ⟨e, rfl, l, hl, hrun⟩
    · obtain ⟨l, hl, hc⟩ := exists_line_of_mem_cells he
      rw [hc] at hmentions hf
      obtain ⟨e, rfl, hrun⟩ := Line.longRun_of_originJump hmentions hf
      exact ⟨e, rfl, l, hl, hrun⟩
    · exact longRun_of_logicProblem he hf
  obtain ⟨e, he, l, hl, hrun⟩ := hlines
  exact ⟨e, he, hrun.mono (raw_isInfix hl)⟩

theorem fails_of_run {limit : Int} {text : Text} {f : Fault} (h : run limit text = .error f) :
    (∃ e, f = .digits e ∧ LongRun text e.count) ∨
      f = .unwritable ∧ text ≠ [] ∧ Radix.isWritable limit = false := by
  rcases fault_mem_of_run h with hfault | ⟨hf, hnote⟩
  · exact .inl (longRun_of_textFindings hfault)
  · rw [canNote, Bool.or_eq_false_iff, List.isEmpty_eq_false_iff] at hnote
    exact .inr ⟨hf, hnote⟩

end Analysis

end TeachAsm
