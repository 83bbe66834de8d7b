import TeachAsm.Proofs.Positions
import TeachAsm.Proofs.Silence

/-!
# Statements below `END`

An `END` without a label stops both walks and the scans of the source lines, so what stands below
it reaches neither the tables nor memory. Two documents that agree down to such an `END` differ in
the reports on the statements below it only, unless these set origins: the scan of origins goes on
to the end of the document.
-/

namespace TeachAsm

/-- The lines above and below the first `END`, which has no label. -/
structure EndsAt (lines above : List Line) (e : Line) (below : List Line) : Prop where
  split : lines = above ++ e :: below
  first : ∀ l ∈ above, l.states .END = false
  ends : e.states .END = true
  unlabelled : e.hasLabel = false

private theorem place_of_stop {reading : Line → Step} {e : Line} (h : reading e = .stop)
    (counter : Nat) (above below : List Line) :
    place reading counter (above ++ e :: below) = place reading counter above := by
  induction above generalizing counter with
  | nil => simp only [List.nil_append, place, h]
  | cons l rest ih =>
      rw [List.cons_append, place, place]
      cases reading l with
      | skip => exact ih counter
      | origin address => exact ih _
      | stop => rfl
      | occupy => exact congrArg _ (ih _)

namespace EndsAt

variable {lines above below : List Line} {e : Line}

theorem statementStep (h : EndsAt lines above e below) : e.statementStep = .stop :=
  Line.statementStep_eq_stop_iff.mpr h.ends

theorem labelStep (h : EndsAt lines above e below) : e.labelStep = .stop :=
  (Line.labelStep_of_not_hasLabel h.unlabelled).trans h.statementStep

private theorem place_labelStep (h : EndsAt lines above e below) :
    place Line.labelStep 0 lines = place Line.labelStep 0 above := by
  rw [h.split, place_of_stop h.labelStep]

private theorem statements_eq (h : EndsAt lines above e below) :
    statements lines = statements above := by
  rw [statements, statements, h.split, place_of_stop h.statementStep]

theorem resolve_eq (h : EndsAt lines above e below) : resolve lines = resolve above := by
  rw [resolve, resolve, resolve?, resolve?, h.place_labelStep]

private theorem load_eq (h : EndsAt lines above e below) (r : Resolution) :
    load lines r = load above r := by
  simp only [load, h.statements_eq]

private theorem aboveEnd_eq (h : EndsAt lines above e below) : aboveEnd lines = above := by
  have hfirst : ∀ l ∈ above, (!l.states .END) = true := fun l hl => by simp [h.first l hl]
  rw [h.split, aboveEnd, List.takeWhile_append_of_pos hfirst]
  simp [h.ends]

private theorem belowEnd_eq (h : EndsAt lines above e below) : belowEnd lines = below := by
  have hfirst : ∀ l ∈ above, (!l.states .END) = true := fun l hl => by simp [h.first l hl]
  rw [h.split, belowEnd, List.dropWhile_append_of_pos hfirst]
  simp [h.ends]

end EndsAt

private theorem originFindings_append {more : List Line} (h : ∀ l ∈ more, l.origin? = none)
    (seen : List (Int × Nat)) (lines : List Line) :
    originFindings seen (lines ++ more) = originFindings seen lines := by
  induction lines generalizing seen with
  | nil =>
      induction more with
      | nil => rfl
      | cons l rest ih =>
          have hrest := ih fun l hl => h l (List.mem_cons_of_mem _ hl)
          simpa only [List.nil_append, originFindings, h l List.mem_cons_self] using hrest
  | cons l rest ih => simp only [List.cons_append, originFindings, ih]

private theorem Line.origin?_of_not_states {l : Line} (h : l.states .ORG = false) :
    l.origin? = none := by
  rw [origin?, h, if_neg Bool.false_ne_true]

/-- The findings of a program that come before the report on what stands below its `END`. -/
def findingsBefore (above : List Line) : List Finding :=
  spellingFindings above ++ above.flatMap Line.operandFindings

/-- The findings of a program that come after the report on the source lines. -/
def findingsAfter (above : List Line) (image : Image) : List Finding :=
  cellFormFindings 0 image.cells ++ (originFindings [] above ++ cellLogicFindings image image.cells)

def belowReport (below : List Line) : List Diagnostic :=
  (below.filter (fun l => !l.isBlank)).map fun l => ⟨l.wholeRange, .belowEnd⟩

def haltReport (above : List Line) (last : Range) : List Diagnostic :=
  if above.any (·.states .HLT) then [] else [⟨last, .missingHalt⟩]

private theorem belowFindings_eq (below : List Line) :
    belowFindings below = (belowReport below).map .problem := by
  rw [belowFindings, belowReport, List.map_map]
  rfl

private theorem EndsAt.findings_eq {lines above below : List Line} {e : Line}
    (h : EndsAt lines above e below) (horigin : ∀ l ∈ below, l.states .ORG = false)
    (image : Image) :
    Analysis.findings lines image = findingsBefore above ++
      ((belowReport below ++ haltReport above (.wholeLine (lines.length - 1 : Int))).map .problem ++
        findingsAfter above image) := by
  have hend : e.origin? = none := by
    apply Line.origin?_of_not_states
    have hmnemonic := (Line.states_iff.mp h.ends).2
    simp [Line.states, hmnemonic]
  have hnone : ∀ l ∈ e :: below, l.origin? = none := by
    intro l hl
    rcases List.mem_cons.mp hl with rfl | hl
    · exact hend
    · exact Line.origin?_of_not_states (horigin l hl)
  have horigins : originFindings [] lines = originFindings [] above := by
    rw [h.split, originFindings_append hnone]
  have hsome : lines.any (·.states .END) = true := by
    rw [h.split]
    simp [h.ends]
  have hspelling : spellingFindings lines = spellingFindings above := by
    have habove : aboveEnd above = above := by
      rw [aboveEnd, List.takeWhile_eq_self_iff]
      intro l hl
      simp [h.first l hl]
    rw [spellingFindings, spellingFindings, h.aboveEnd_eq, habove]
  have hhalt : Finding.ofCheck (.wholeLine (lines.length - 1 : Int))
      (.ok (if above.any (·.states .HLT) then none else some .missingHalt)) =
        (haltReport above (.wholeLine (lines.length - 1 : Int))).map .problem := by
    rw [haltReport]
    split <;> rfl
  simp only [Analysis.findings, formFindings, logicFindings, sourceFindings, scanFindings,
    h.aboveEnd_eq, h.belowEnd_eq, hsome, Bool.or_true, Bool.false_or, if_true, hspelling,
    horigins, hhalt, belowFindings_eq, findingsBefore, findingsAfter, List.map_append,
    List.append_assoc]
  rfl

def Range.onFirstLine (r : Range) : Range :=
  { start := { r.start with line := 0 }, stop := { r.stop with line := 0 } }

/-- The diagnostics apart from those on statements below `END`. The line on which a missing `HLT` is
shown has no bearing. -/
def essence (ds : List Diagnostic) : List Diagnostic :=
  (ds.filter fun d => d.problem ≠ .belowEnd).map fun d =>
    if d.problem = .missingHalt then { d with range := d.range.onFirstLine } else d

private theorem essence_append (ds ds' : List Diagnostic) :
    essence (ds ++ ds') = essence ds ++ essence ds' := by
  rw [essence, List.filter_append, List.map_append]
  rfl

private theorem essence_belowReport (below : List Line) : essence (belowReport below) = [] := by
  have hnone : (belowReport below).filter (fun d => d.problem ≠ .belowEnd) = [] := by
    rw [List.filter_eq_nil_iff]
    intro d hd
    obtain ⟨l, -, rfl⟩ := List.mem_map.mp hd
    simp
  rw [essence, hnone, List.map_nil]

private theorem essence_haltReport (above : List Line) (last last' : Int) :
    essence (haltReport above (.wholeLine last)) =
      essence (haltReport above (.wholeLine last')) := by
  unfold haltReport
  split <;> rfl

private theorem filter_belowReport (below : List Line) :
    (belowReport below).filter (fun d => d.problem = .belowEnd) = belowReport below := by
  rw [List.filter_eq_self]
  intro d hd
  obtain ⟨l, -, rfl⟩ := List.mem_map.mp hd
  simp

private theorem filter_of_site {ds : List Diagnostic} (h : ∀ d ∈ ds, d.problem.site ≠ .belowEnd) :
    ds.filter (fun d => d.problem = .belowEnd) = [] := by
  rw [List.filter_eq_nil_iff]
  intro d hd hbelow
  rw [decide_eq_true_eq] at hbelow
  exact h d hd (by rw [hbelow]; rfl)

private theorem site_of_mem_findingsBefore {above : List Line} {d : Diagnostic}
    (h : .problem d ∈ findingsBefore above) : d.problem.site = .statement := by
  rcases List.mem_append.mp h with h | h
  · exact site_of_mem_spellingFindings h
  · obtain ⟨l, -, hd⟩ := List.mem_flatMap.mp h
    exact Line.site_of_mem_operandFindings hd

private theorem site_of_mem_findingsAfter {above : List Line} {image : Image} {d : Diagnostic}
    (h : .problem d ∈ findingsAfter above image) :
    d.problem.site = .cell ∨ d.problem.site = .origin := by
  simp only [findingsAfter, List.mem_append] at h
  rcases h with h | h | h
  · exact .inl (site_of_mem_cellFormFindings h)
  · exact .inr (site_of_mem_originFindings h)
  · exact .inl (site_of_mem_cellLogicFindings h)

private theorem filter_haltReport (above : List Line) (last : Range) :
    (haltReport above last).filter (fun d => d.problem = .belowEnd) = [] := by
  unfold haltReport
  split <;> rfl

section

variable {ε α β : Type} {x : Except ε α} {f : α → β}

private theorem eq_error_of_map {e : ε} (h : x.map f = .error e) : x = .error e := by
  cases x with
  | error e' =>
      cases h
      rfl
  | ok a => cases h

private theorem exists_of_map {b : β} (h : x.map f = .ok b) : ∃ a, x = .ok a ∧ f a = b := by
  cases x with
  | error e => cases h
  | ok a =>
      cases h
      exact ⟨a, rfl, rfl⟩

end

namespace Analysis

private theorem budget_run {limit : Int} {text : Text} {a : Analysis} (h : run limit text = .ok a) :
    a.budget = { limit, count := a.gated.length } := by
  have hledger := ledger_run_eq_collect limit text
  obtain ⟨hcollect, -, hnote⟩ := collect_of_run h
  rw [h, hcollect, hnote] at hledger
  simp only [Except.map, Except.bind, ledger, if_true, Except.ok.injEq, Ledger.mk.injEq] at hledger
  exact hledger.1

private theorem collect_of_not_exhausted {limit : Int} {text : Text}
    (hnote : canNote limit text = true)
    (h : ∀ a, run limit text = .ok a → a.budget.exhausted = false) :
    (run limit text).map gated = collect (textFindings text) := by
  cases hrun : run limit text with
  | error f =>
      have hledger := ledger_run_eq_collect limit text
      rw [hrun, hnote] at hledger
      cases hcollect : collect ((textFindings text).take (limit - 1).toNat) with
      | ok ds =>
          rw [hcollect] at hledger
          cases hledger
      | error f' =>
          rw [hcollect] at hledger
          cases hledger
          rw [collect_of_take hcollect]
          rfl
  | ok a =>
      have hcollect := (collect_of_run hrun).1
      have hroom := h a hrun
      rw [budget_run hrun, Budget.exhausted, decide_eq_false_iff_not] at hroom
      have hlength := congrArg List.length (eq_problems_of_collect hcollect)
      rw [List.length_map, List.length_take] at hlength
      have hall : (textFindings text).take (limit - 1).toNat = textFindings text := by
        apply List.take_of_length_le
        simp only [ge_iff_le] at hroom
        omega
      rw [← hall, hcollect]
      rfl

theorem textFindings_of_mem_cells {text : Text} {image : Image} {e : Nat × Cell}
    (himage : image = (load (sourceLines text) (resolve (sourceLines text))).image)
    (he : e ∈ image.cells) : textFindings text = findings (sourceLines text) image := by
  rw [textFindings, if_neg, ← himage]
  intro hempty
  have hnothing : (load (sourceLines []) (resolve (sourceLines []))).image.cells = [] := by decide
  rw [himage, List.isEmpty_iff.mp hempty, hnothing] at he
  cases he

/-- What is found about a text is what an analysis shows that does not exhaust its budget. -/
theorem textFindings_of_run {limit : Int} {text : Text} {a : Analysis} (h : run limit text = .ok a)
    (hbudget : a.budget.exhausted = false) : textFindings text = a.gated.map .problem := by
  have hroom : ∀ a', run limit text = .ok a' → a'.budget.exhausted = false := by
    intro a' ha'
    rw [h, Except.ok.injEq] at ha'
    exact ha' ▸ hbudget
  apply eq_problems_of_collect
  rw [← collect_of_not_exhausted (collect_of_run h).2.2 hroom, h]
  rfl

private theorem isEmpty_of_endsAt {text : Text} {above below : List Line} {e : Line}
    (h : EndsAt (sourceLines text) above e below) : text.isEmpty = false := by
  cases text with
  | cons c rest => rfl
  | nil =>
      have hmem : e ∈ sourceLines [] := by
        rw [h.split]
        exact List.mem_append_right _ List.mem_cons_self
      have hnone : ∀ l ∈ sourceLines [], l.states .END = false := by decide
      have hends := h.ends
      rw [hnone e hmem] at hends
      cases hends

private theorem fields_of_endsAt {limit : Int} {text : Text} {above below : List Line} {e : Line}
    {a : Analysis} (hends : EndsAt (sourceLines text) above e below) (h : run limit text = .ok a) :
    a.resolution = resolve above ∧ a.memory = load above (resolve above) ∧
      a.labels = labelReport (resolve above) (load above (resolve above)).unused := by
  have hfields := fields_run h
  dsimp only at hfields
  rw [hends.resolve_eq, hends.load_eq] at hfields
  exact hfields

private theorem gated_of_endsAt {limit : Int} {text : Text} {above below : List Line} {e : Line}
    (hends : EndsAt (sourceLines text) above e below)
    (horigin : ∀ l ∈ below, l.states .ORG = false) (hnote : canNote limit text = true)
    (hroom : ∀ a, run limit text = .ok a → a.budget.exhausted = false) :
    (run limit text).map gated = (collect (findingsBefore above)).bind fun before =>
      (collect (findingsAfter above (load above (resolve above)).image)).map fun after =>
        before ++ (belowReport below ++
          haltReport above (.wholeLine ((sourceLines text).length - 1 : Int)) ++ after) := by
  have htext : textFindings text =
      findings (sourceLines text) (load above (resolve above)).image := by
    rw [textFindings, isEmpty_of_endsAt hends, if_neg Bool.false_ne_true, hends.resolve_eq,
      hends.load_eq]
  rw [collect_of_not_exhausted hnote hroom, htext, hends.findings_eq horigin, collect_append,
    collect_append, collect_problems]
  cases collect (findingsBefore above) with
  | error f => rfl
  | ok before =>
      cases collect (findingsAfter above (load above (resolve above)).image) with
      | error f => rfl
      | ok after => rfl

/-- What an analysis that meets no failure gives: only the report on the statements below `END` and
the place of a missing `HLT` come from outside the lines above. -/
private theorem run_of_endsAt {limit : Int} {text : Text} {above below : List Line} {e : Line}
    (hends : EndsAt (sourceLines text) above e below)
    (horigin : ∀ l ∈ below, l.states .ORG = false) (hnote : canNote limit text = true)
    (hroom : ∀ a, run limit text = .ok a → a.budget.exhausted = false)
    {before after : List Diagnostic} (hbefore : collect (findingsBefore above) = .ok before)
    (hafter : collect (findingsAfter above (load above (resolve above)).image) = .ok after) :
    ∃ a, run limit text = .ok a ∧ a.resolution = resolve above ∧
      a.memory = load above (resolve above) ∧
      a.diagnostics = before ++ (belowReport below ++
        haltReport above (.wholeLine ((sourceLines text).length - 1 : Int)) ++ after) ++
          labelReport (resolve above) (load above (resolve above)).unused := by
  have hgated := gated_of_endsAt hends horigin hnote hroom
  rw [hbefore, hafter] at hgated
  obtain ⟨a, ha, hds⟩ := exists_of_map hgated
  obtain ⟨hresolution, hmemory, hlabels⟩ := fields_of_endsAt hends ha
  refine ⟨a, ha, hresolution, hmemory, ?_⟩
  rw [diagnostics, hds, hlabels]

private theorem filter_diagnostics_of_endsAt {above : List Line} {image : Image}
    {before after : List Diagnostic} (hbefore : collect (findingsBefore above) = .ok before)
    (hafter : collect (findingsAfter above image) = .ok after) (below : List Line) (last : Range)
    (r : Resolution) (unused : Table Text Nat) :
    (before ++ (belowReport below ++ haltReport above last ++ after) ++
      labelReport r unused).filter (fun d => d.problem = .belowEnd) = belowReport below := by
  have hfront : before.filter (fun d => d.problem = .belowEnd) = [] := by
    refine filter_of_site fun d hd => ?_
    have hmem := List.mem_map_of_mem (f := Finding.problem) hd
    rw [← eq_problems_of_collect hbefore] at hmem
    rw [site_of_mem_findingsBefore hmem]
    decide
  have hback : after.filter (fun d => d.problem = .belowEnd) = [] := by
    refine filter_of_site fun d hd => ?_
    have hmem := List.mem_map_of_mem (f := Finding.problem) hd
    rw [← eq_problems_of_collect hafter] at hmem
    rcases site_of_mem_findingsAfter hmem with hsite | hsite <;> rw [hsite] <;> decide
  have hlabels : (labelReport r unused).filter (fun d => d.problem = .belowEnd) = [] := by
    refine filter_of_site fun d hd => ?_
    rw [site_of_mem_labelReport hd]
    decide
  simp only [List.filter_append, hfront, hback, hlabels, filter_belowReport, filter_haltReport,
    List.nil_append, List.append_nil]

/-- Two documents have the same lines down to an `END` without a label, and no statement below it
sets an origin. If neither exhausts its budget, both fail, and alike if the limit can be noted, or
both have the same tables, the same memory and the same diagnostics, apart from one report for each
statement below `END`. -/
theorem run_inert_below_end {limit : Int} {text text' : Text} {above below below' : List Line}
    {e : Line} (hends : EndsAt (sourceLines text) above e below)
    (hends' : EndsAt (sourceLines text') above e below')
    (horigin : ∀ l ∈ below, l.states .ORG = false)
    (horigin' : ∀ l ∈ below', l.states .ORG = false)
    (hroom : ∀ a, run limit text = .ok a → a.budget.exhausted = false)
    (hroom' : ∀ a, run limit text' = .ok a → a.budget.exhausted = false) :
    (∃ f f', run limit text = .error f ∧ run limit text' = .error f' ∧
      (Radix.isWritable limit = true → f = f')) ∨
      ∃ a a', run limit text = .ok a ∧ run limit text' = .ok a' ∧
        a.resolution = a'.resolution ∧ a.memory = a'.memory ∧
        essence a.diagnostics = essence a'.diagnostics ∧
        a.diagnostics.filter (fun d => d.problem = .belowEnd) = belowReport below ∧
        a'.diagnostics.filter (fun d => d.problem = .belowEnd) = belowReport below' := by
  -- A limit that cannot be noted fails both, though the budget may end before different failures.
  cases hwritable : Radix.isWritable limit with
  | false =>
      have hfails {t : Text} (ht : t.isEmpty = false) : ∃ f, run limit t = .error f :=
        exists_error_of_not_canNote (by rw [canNote, ht, hwritable, Bool.or_self])
      obtain ⟨f, hf⟩ := hfails (isEmpty_of_endsAt hends)
      obtain ⟨f', hf'⟩ := hfails (isEmpty_of_endsAt hends')
      exact .inl ⟨f, f', hf, hf', fun htrue => absurd htrue Bool.false_ne_true⟩
  | true =>
      have hgated :=
        gated_of_endsAt hends horigin (canNote_of_isWritable hwritable text) hroom
      have hgated' :=
        gated_of_endsAt hends' horigin' (canNote_of_isWritable hwritable text') hroom'
      cases hbefore : collect (findingsBefore above) with
      | error f =>
          rw [hbefore] at hgated hgated'
          exact .inl ⟨f, f, eq_error_of_map hgated, eq_error_of_map hgated', fun _ => rfl⟩
      | ok before =>
          cases hafter : collect (findingsAfter above (load above (resolve above)).image) with
          | error f =>
              rw [hbefore, hafter] at hgated hgated'
              exact .inl ⟨f, f, eq_error_of_map hgated, eq_error_of_map hgated', fun _ => rfl⟩
          | ok after =>
              obtain ⟨a, ha, hresolution, hmemory, hds⟩ := run_of_endsAt hends horigin
                (canNote_of_isWritable hwritable text) hroom hbefore hafter
              obtain ⟨a', ha', hresolution', hmemory', hds'⟩ := run_of_endsAt hends' horigin'
                (canNote_of_isWritable hwritable text') hroom' hbefore hafter
              have hsame : essence a.diagnostics = essence a'.diagnostics := by
                rw [hds, hds']
                simp only [essence_append, essence_belowReport]
                rw [essence_haltReport]
              refine .inr ⟨a, a', ha, ha', hresolution.trans hresolution'.symm,
                hmemory.trans hmemory'.symm, hsame, ?_, ?_⟩
              · rw [hds]
                exact filter_diagnostics_of_endsAt hbefore hafter below _ _ _
              · rw [hds']
                exact filter_diagnostics_of_endsAt hbefore hafter below' _ _ _

/-- The second document repeats a label, a misspelt word and an `END` below the first one. -/
theorem run_inert_below_end_tail :
    let text : Text := .ofString "X, DEC 5\n LDA X\nEND"
    let text' : Text := .ofString "X, DEC 5\n LDA X\nEND\nX, LAD 9\n\nEND"
    ∃ a a', run 100 text = .ok a ∧ run 100 text' = .ok a' ∧ a.resolution = a'.resolution ∧
      a.memory = a'.memory ∧ essence a.diagnostics = essence a'.diagnostics ∧
      a'.diagnostics.filter (fun d => d.problem = .belowEnd) =
        [⟨.wholeLine 3, .belowEnd⟩, ⟨.wholeLine 5, .belowEnd⟩] := by
  intro text text'
  let above : List Line := [⟨0, .ofString "X, DEC 5"⟩, ⟨1, .ofString " LDA X"⟩]
  let e : Line := ⟨2, .ofString "END"⟩
  let below : List Line := [⟨3, .ofString "X, LAD 9"⟩, ⟨4, []⟩, ⟨5, .ofString "END"⟩]
  have hends : EndsAt (sourceLines text) above e [] :=
    ⟨by decide +kernel, by decide +kernel, by decide +kernel, by decide +kernel⟩
  have hends' : EndsAt (sourceLines text') above e below :=
    ⟨by decide +kernel, by decide +kernel, by decide +kernel, by decide +kernel⟩
  have hroom (t : Text) (h : (run 100 t).toOption.all (fun a => !a.budget.exhausted) = true) :
      ∀ a, run 100 t = .ok a → a.budget.exhausted = false := by
    intro a ha
    rw [ha] at h
    simpa [Except.toOption] using h
  have heval : (run 100 text).toOption.isSome = true := by decide +kernel
  rcases run_inert_below_end hends hends' (by decide) (by decide +kernel)
    (hroom text (by decide +kernel)) (hroom text' (by decide +kernel)) with
    ⟨f, -, hf, -⟩ | ⟨a, a', ha, ha', hresolution, hmemory, hsame, -, hbelow⟩
  · rw [hf] at heval
    cases heval
  · refine ⟨a, a', ha, ha', hresolution, hmemory, hsame, ?_⟩
    rw [hbelow]
    decide +kernel

end Analysis

namespace EndsAt

variable {text : Text} {above below : List Line} {e l : Line}

private theorem index_lt (h : EndsAt (sourceLines text) above e below) (hl : l ∈ above) :
    l.index < e.index := by
  have hordered := pairwise_index_sourceLines text
  rw [h.split, List.pairwise_append] at hordered
  exact hordered.2.2 l hl e List.mem_cons_self

private theorem mem_below (h : EndsAt (sourceLines text) above e below) (hl : l ∈ sourceLines text)
    (hindex : e.index < l.index) : l ∈ below := by
  rw [h.split] at hl
  rcases List.mem_append.mp hl with hl | hl
  · exact absurd (h.index_lt hl) (by omega)
  · rcases List.mem_cons.mp hl with rfl | hl
    · exact absurd hindex (Nat.lt_irrefl _)
    · exact hl

end EndsAt

namespace Analysis

/-- A diagnostic on a line below an `END` without a label reports the statement there, or a missing
`HLT` on the last line, or an origin that the line sets again. -/
theorem reported_below_end {limit : Int} {text : Text} {above below : List Line} {e : Line}
    {a : Analysis} (hends : EndsAt (sourceLines text) above e below)
    (h : run limit text = .ok a) :
    ∀ d ∈ a.diagnostics, (e.index : Int) < d.line →
      (∃ l ∈ below, l.isBlank = false ∧ d = ⟨l.wholeRange, .belowEnd⟩) ∨
      d = ⟨.wholeLine ((sourceLines text).length - 1 : Int), .missingHalt⟩ ∨
      ∃ l ∈ below, l.states .ORG = true ∧ ∃ first ∈ sourceLines text, first.index < l.index ∧
        first.origin? = l.origin? ∧
        d = ⟨l.wholeRange, .duplicateOrigin (first.index + 1)⟩ := by
  intro d hd hline
  have habove {l : Line} (hl : l ∈ above) : ¬ (e.index : Int) < l.index := by
    have hlt := hends.index_lt hl
    omega
  -- One case for each place that reports; those that look at the lines above stay above.
  cases shown_of_run h d hd with
  | statement about above stated =>
      rw [hends.aboveEnd_eq] at above
      exact absurd hline (habove above)
  | @belowEnd l below stated =>
      rw [hends.belowEnd_eq] at below
      exact .inl ⟨l, below, stated, rfl⟩
  | missingEnd none =>
      have hmem : e ∈ sourceLines text := by
        rw [hends.split]
        exact List.mem_append_right _ List.mem_cons_self
      have hends := hends.ends
      rw [none e hmem] at hends
      cases hends
  | missingHalt => exact .inr (.inl rfl)
  | cell about placed =>
      rw [hends.statements_eq] at placed
      exact absurd hline (habove (mem_of_mem_place placed))
  | label about placed =>
      rw [hends.place_labelStep] at placed
      exact absurd hline (habove (mem_of_mem_place placed))
  | @origin earlier later l first split states before repeated =>
      have hordered := pairwise_index_sourceLines text
      rw [split, List.pairwise_append] at hordered
      have hbefore : first.index < l.index := hordered.2.2 first before l List.mem_cons_self
      have hfirst : first ∈ sourceLines text := by
        rw [split]
        exact List.mem_append_left _ before
      have hl : l ∈ sourceLines text := by
        rw [split]
        exact List.mem_append_right _ List.mem_cons_self
      have hbelow := hends.mem_below hl (Int.ofNat_lt.mp hline)
      exact .inr (.inr ⟨l, hbelow, states, first, hfirst, hbefore, repeated, rfl⟩)

/-- Below `END` stands an origin once more, and there is no `HLT`. -/
theorem reported_below_end_origin :
    let text : Text := .ofString "ORG 10\nEND\nORG 10 / again\n"
    let above : List Line := [⟨0, .ofString "ORG 10"⟩]
    let e : Line := ⟨1, .ofString "END"⟩
    let below : List Line := [⟨2, .ofString "ORG 10 / again"⟩, ⟨3, []⟩]
    EndsAt (sourceLines text) above e below ∧ ∃ a, run 100 text = .ok a ∧
      a.diagnostics.map Diagnostic.line = [2, 3, 2] ∧ ∀ d ∈ a.diagnostics, 1 < d.line →
        (∃ l ∈ below, l.isBlank = false ∧ d = ⟨l.wholeRange, .belowEnd⟩) ∨
        d = ⟨.wholeLine ((sourceLines text).length - 1 : Int), .missingHalt⟩ ∨
        ∃ l ∈ below, l.states .ORG = true ∧ ∃ first ∈ sourceLines text, first.index < l.index ∧
          first.origin? = l.origin? ∧
          d = ⟨l.wholeRange, .duplicateOrigin (first.index + 1)⟩ := by
  intro text above e below
  have hends : EndsAt (sourceLines text) above e below :=
    ⟨by decide +kernel, by decide +kernel, by decide +kernel, by decide +kernel⟩
  have heval : (run 100 text).toOption.map (fun a => a.diagnostics.map Diagnostic.line) =
      some [2, 3, 2] := by decide +kernel
  cases hrun : run 100 text with
  | error f =>
      rw [hrun] at heval
      cases heval
  | ok a =>
      rw [hrun] at heval
      simp only [Except.toOption, Option.map_some, Option.some.injEq] at heval
      exact ⟨hends, a, rfl, heval, reported_below_end hends hrun⟩

/-- The statement below `END` is reported twice: as one that is ignored, and as one that overwrites
what stands above. -/
theorem origin_reported_twice_below_end :
    let text : Text := .ofString "ORG 10\nHLT\nEND\nORG 10"
    let above : List Line := [⟨0, .ofString "ORG 10"⟩, ⟨1, .ofString "HLT"⟩]
    let e : Line := ⟨2, .ofString "END"⟩
    EndsAt (sourceLines text) above e [⟨3, .ofString "ORG 10"⟩] ∧ ∃ ds, analyze 100 text = .ok ds ∧
      ∃ d ∈ ds, (e.index : Int) < d.line ∧ d.message ≠ Problem.belowEnd.message ∧
        d.message ≠ Problem.missingHalt.message := by
  intro text above e
  refine ⟨⟨by decide +kernel, by decide +kernel, by decide +kernel, by decide +kernel⟩,
    [⟨.wholeLine 3, .belowEnd⟩, ⟨.wholeLine 3, .duplicateOrigin 1⟩], by decide +kernel,
    ⟨.wholeLine 3, .duplicateOrigin 1⟩, by decide, by decide, ?_, ?_⟩
  · decide +kernel
  · decide +kernel

end Analysis

end TeachAsm
