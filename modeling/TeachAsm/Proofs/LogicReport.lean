import TeachAsm.Proofs.BelowEnd

/-!
# The report of the logic pass

The problems of the logic pass are its own, so its diagnostics can be told from the others of an
analysis. Where the budget lasts they are what its two scans find: the scan of the source lines for
origins, and the scan of memory, which checks every cell if none ends it.
-/

namespace TeachAsm

/-- The diagnostics show exactly the items with a property, one each, in the order of a key. -/
def ReportsInOrder {α : Type} (ds : List Diagnostic) (key : α → Nat) (shown : α → Diagnostic)
    (p : α → Prop) : Prop :=
  ∃ items : List α, items.Pairwise (fun x y => key x < key y) ∧ (∀ x, x ∈ items ↔ p x) ∧
    ds = items.map shown

theorem ReportsInOrder.exists_of_mem {α : Type} {ds : List Diagnostic} {key : α → Nat}
    {shown : α → Diagnostic} {p : α → Prop} (h : ReportsInOrder ds key shown p) {d : Diagnostic}
    (hd : d ∈ ds) : ∃ x, p x ∧ shown x = d := by
  obtain ⟨items, -, hmem, rfl⟩ := h
  obtain ⟨x, hx, hshown⟩ := List.mem_map.mp hd
  exact ⟨x, (hmem x).mp hx, hshown⟩

def Problem.isLogic : Problem → Bool
  | duplicateOrigin _ | invalidTarget | unreachableHalt => true
  | _ => false

private theorem Problem.isLogic_of_site {p : Problem} (h : p.site = .origin) :
    p.isLogic = true := by
  cases p <;> first | rfl | cases h

private theorem Problem.site_of_isLogic {p : Problem} (h : p.isLogic = true) :
    p.site = .origin ∨ p.site = .cell := by
  cases p with
  | duplicateOrigin line => exact .inl rfl
  | invalidTarget => exact .inr rfl
  | unreachableHalt => exact .inr rfl
  | _ => cases h

private theorem Cell.isLogic_of_formProblem? {c : Cell} {p : Problem}
    (h : c.formProblem? = some p) : p.isLogic = false := by
  unfold formProblem? at h
  split at h
  · cases h
    rfl
  split at h
  · cases h
    rfl
  split at h
  · cases h
    rfl
  · cases h

def Finding.diagnostic? : Finding → Option Diagnostic
  | .problem d => some d
  | .fault _ => none

/-- The diagnostics among findings that show a problem with a property. -/
def reported (p : Problem → Bool) (findings : List Finding) : List Diagnostic :=
  (findings.filterMap Finding.diagnostic?).filter fun d => p d.problem

section

variable (p : Problem → Bool)

private theorem reported_append (first second : List Finding) :
    reported p (first ++ second) = reported p first ++ reported p second := by
  rw [reported, List.filterMap_append, List.filter_append]
  rfl

theorem reported_problems (ds : List Diagnostic) :
    reported p (ds.map .problem) = ds.filter fun d => p d.problem := by
  have hall : (ds.map Finding.problem).filterMap Finding.diagnostic? = ds := by
    rw [List.filterMap_map]
    exact List.filterMap_some
  rw [reported, hall]

variable {p}

private theorem reported_eq_nil {findings : List Finding}
    (h : ∀ d, .problem d ∈ findings → p d.problem = false) : reported p findings = [] := by
  rw [reported, List.filter_eq_nil_iff]
  intro d hd
  obtain ⟨finding, hfinding, hsome⟩ := List.mem_filterMap.mp hd
  cases finding with
  | fault f => cases hsome
  | problem d' =>
      cases hsome
      simp [h d hfinding]

/-- What the passes find before the logic pass is not reported by it. -/
private theorem reported_before_logic (hp : ∀ q, p q = true → q.isLogic = true) (lines : List Line)
    (image : Image) : reported p (spellingFindings lines ++ formFindings lines image) = [] := by
  have hsite {q : Problem} (horigin : q.site ≠ .origin) (hcell : q.site ≠ .cell) :
      q.isLogic = false := by
    rw [Bool.eq_false_iff]
    intro hlogic
    exact (Problem.site_of_isLogic hlogic).elim horigin hcell
  apply reported_eq_nil
  intro d hd
  have hlogic : d.problem.isLogic = false := by
    simp only [formFindings, List.mem_append] at hd
    rcases hd with hd | hd | hd
    · have hstatement := site_of_mem_spellingFindings hd
      apply hsite <;> simp [hstatement]
    · rcases site_of_mem_sourceFindings hd with h | h | h <;> apply hsite <;> simp [h]
    · obtain ⟨e, -, -, hform⟩ := exists_cell_of_mem_cellFormFindings hd
      rw [Cell.formDiagnostic?, Option.map_eq_some_iff] at hform
      obtain ⟨q, hq, rfl⟩ := hform
      exact Cell.isLogic_of_formProblem? hq
  rw [Bool.eq_false_iff]
  intro hselected
  rw [hp _ hselected] at hlogic
  cases hlogic

private theorem reported_cellLogicFindings (image : Image) (problem : Problem)
    {cells : List (Nat × Cell)} (h : ∀ e ∈ cells, e.2.endsScan = false) :
    reported (fun q => q = problem) (cellLogicFindings image cells) =
      (cells.filter fun e => image.logicProblem e.1 e.2 = .ok (some problem)).map
        fun e => ⟨e.2.range, problem⟩ := by
  induction cells with
  | nil => rfl
  | cons e rest ih =>
      rw [List.forall_mem_cons] at h
      rw [cellLogicFindings_cons image rest h.1, reported_append, ih h.2]
      cases hcheck : image.logicProblem e.1 e.2 with
      | error f => simp [hcheck, Finding.ofCheck, reported, Finding.diagnostic?]
      | ok q =>
          cases q with
          | none => simp [hcheck, Finding.ofCheck, reported]
          | some q =>
              by_cases hq : q = problem
              · simp [hcheck, hq, Finding.ofCheck, reported, Finding.diagnostic?]
              · simp [hcheck, hq, Finding.ofCheck, reported, Finding.diagnostic?]

end

theorem exists_ok_of_toOption {ε α β : Type} {x : Except ε α} {f : α → β} {b : β}
    (h : x.toOption.map f = some b) : ∃ a, x = .ok a ∧ f a = b := by
  cases x with
  | error e => cases h
  | ok a =>
      rw [Except.toOption, Option.map_some, Option.some.injEq] at h
      exact ⟨a, rfl, h⟩

namespace Analysis

section

variable {limit : Int} {text : Text} {a : Analysis} (h : run limit text = .ok a)
  (hbudget : a.budget.exhausted = false)

include h hbudget

private theorem filter_of_isLogic {p : Problem → Bool} (hp : ∀ q, p q = true → q.isLogic = true) :
    a.diagnostics.filter (fun d => p d.problem) =
      reported p (logicFindings (sourceLines text) a.memory.image) := by
  have hlabels : a.labels.filter (fun d => p d.problem) = [] := by
    rw [List.filter_eq_nil_iff, (fields_run h).2.2]
    intro d hd hselected
    have hsite := Problem.site_of_isLogic (hp _ hselected)
    simp [site_of_mem_labelReport hd] at hsite
  rw [diagnostics, List.filter_append, hlabels, List.append_nil, ← reported_problems,
    ← textFindings_of_run h hbudget, (fields_run h).2.1, textFindings]
  split
  · next hempty =>
      have hnothing : logicFindings (sourceLines [])
          (load (sourceLines []) (resolve (sourceLines []))).image = [] := by decide
      rw [List.isEmpty_iff.mp hempty, hnothing]
  · rw [findings, ← List.append_assoc, reported_append, reported_before_logic hp, List.nil_append]

/-- The origins that are set again are those that the scan of the source lines finds. -/
theorem filter_origins : a.diagnostics.filter (fun d => d.problem.site = .origin) =
    reported (fun q => q.site = .origin) (originFindings [] (sourceLines text)) := by
  have hcells : reported (fun q => q.site = .origin)
      (cellLogicFindings a.memory.image a.memory.image.cells) = [] := by
    apply reported_eq_nil
    intro d hd
    obtain ⟨e, -, q, hq, rfl⟩ := exists_cell_of_mem_cellLogicFindings hd
    simp [Image.site_of_logicProblem hq]
  have hlogic : ∀ q : Problem, decide (q.site = .origin) = true → q.isLogic = true := by
    intro q hq
    apply Problem.isLogic_of_site
    simpa using hq
  refine (filter_of_isLogic h hbudget hlogic).trans ?_
  rw [logicFindings, reported_append, hcells, List.append_nil]

variable (hend : ∀ e ∈ a.memory.image.cells, e.2.endsScan = false)

include hend

theorem filter_cells {problem : Problem}
    (hproblem : problem = .invalidTarget ∨ problem = .unreachableHalt) :
    a.diagnostics.filter (fun d => d.problem = problem) =
      (a.memory.image.cells.filter fun e =>
        a.memory.image.logicProblem e.1 e.2 = .ok (some problem)).map
          fun e => ⟨e.2.range, problem⟩ := by
  have horigins : reported (fun q => q = problem) (originFindings [] (sourceLines text)) = [] := by
    apply reported_eq_nil
    intro d hd
    obtain ⟨earlier, l, later, first, -, -, -, -, rfl⟩ :=
      exists_repeated_of_mem_originFindings [] (List.forall_mem_nil _) hd
    rcases hproblem with rfl | rfl <;> rfl
  have hlogic : ∀ q : Problem, decide (q = problem) = true → q.isLogic = true := by
    intro q hq
    rw [of_decide_eq_true hq]
    rcases hproblem with rfl | rfl <;> rfl
  refine (filter_of_isLogic h hbudget hlogic).trans ?_
  rw [logicFindings, reported_append, horigins, List.nil_append,
    reported_cellLogicFindings _ _ hend]

theorem exists_logicProblem {address : Nat} {c : Cell}
    (he : (address, c) ∈ a.memory.image.cells) :
    ∃ problem?, a.memory.image.logicProblem address c = .ok problem? := by
  cases hcheck : a.memory.image.logicProblem address c with
  | ok problem? => exact ⟨problem?, rfl⟩
  | error f =>
      have hall : a.memory.image.cells.takeWhile (fun e => !e.2.endsScan) =
          a.memory.image.cells := by
        rw [List.takeWhile_eq_self_iff]
        intro e he
        simp [hend e he]
      have hfault : Finding.fault f ∈ cellLogicFindings a.memory.image a.memory.image.cells := by
        rw [cellLogicFindings, hall, List.mem_flatMap]
        exact ⟨(address, c), he, by simp [hcheck, Finding.ofCheck]⟩
      have hfound : Finding.fault f ∈ textFindings text := by
        rw [textFindings_of_mem_cells (congrArg Memory.image (fields_run h).2.1) he]
        simp only [findings, logicFindings, List.mem_append]
        exact .inr (.inr (.inr hfault))
      rw [textFindings_of_run h hbudget] at hfound
      obtain ⟨d, -, hd⟩ := List.mem_map.mp hfound
      cases hd

end

end Analysis

end TeachAsm
