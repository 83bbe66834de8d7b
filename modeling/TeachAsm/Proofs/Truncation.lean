import TeachAsm.Proofs.Bindings
import TeachAsm.Proofs.Findings

/-!
# Truncation under a smaller limit

A budget only cuts. The gated diagnostics of an analysis are the findings of its text up to the
limit, so an analysis under a smaller limit gives a first part of them, in the same order, and the
same report on labels. In the end it notes the limit, which must not be too long to be written; none
that the commands or the server are given is.
-/

namespace TeachAsm

/-- The diagnostics of a list of findings, unless it holds a failure. -/
def collect : List Finding → Except Fault (List Diagnostic)
  | [] => .ok []
  | .problem d :: rest => (collect rest).map (d :: ·)
  | .fault f :: _ => .error f

def Finding.map (change : Diagnostic → Diagnostic) : Finding → Finding
  | problem d => problem (change d)
  | fault e => fault e

theorem Finding.ofCheck_map {change : Diagnostic → Diagnostic} {range range' : Range}
    {check : Except Fault (Option Problem)}
    (h : ∀ p, check = .ok (some p) → change ⟨range, p⟩ = ⟨range', p⟩) :
    (ofCheck range check).map (Finding.map change) = ofCheck range' check := by
  match check with
  | .error e => rfl
  | .ok none => rfl
  | .ok (some p) => exact congrArg (fun d => [problem d]) (h p rfl)

theorem collect_map (change : Diagnostic → Diagnostic) (findings : List Finding) :
    collect (findings.map (Finding.map change)) =
      (collect findings).map (List.map change) := by
  induction findings with
  | nil => rfl
  | cons finding rest ih =>
      cases finding with
      | fault e => rfl
      | problem d =>
          rw [List.map_cons, Finding.map, collect, collect, ih]
          cases collect rest <;> rfl

theorem collect_problems (ds : List Diagnostic) : collect (ds.map .problem) = .ok ds := by
  induction ds with
  | nil => rfl
  | cons d rest ih => rw [List.map_cons, collect, ih, Except.map]

theorem eq_problems_of_collect {findings : List Finding} {ds : List Diagnostic}
    (h : collect findings = .ok ds) : findings = ds.map .problem := by
  induction findings generalizing ds with
  | nil =>
      cases h
      rfl
  | cons finding rest ih =>
      cases finding with
      | fault f => cases h
      | problem d =>
          rw [collect] at h
          cases hrest : collect rest with
          | error f =>
              rw [hrest] at h
              cases h
          | ok tail =>
              rw [hrest] at h
              cases h
              rw [ih hrest, List.map_cons]

theorem collect_append (first second : List Finding) :
    collect (first ++ second) =
      (collect first).bind fun ds => (collect second).map fun ds' => ds ++ ds' := by
  induction first with
  | nil =>
      rw [List.nil_append, collect, Except.bind]
      cases collect second <;> rfl
  | cons finding rest ih =>
      cases finding with
      | fault f => rfl
      | problem d =>
          rw [List.cons_append, collect, collect, ih]
          cases collect rest with
          | error f => rfl
          | ok ds => cases collect second <;> rfl

/-- A failure among the first findings is the failure of all of them. -/
theorem collect_of_take {findings : List Finding} {n : Nat} {f : Fault}
    (h : collect (findings.take n) = .error f) : collect findings = .error f := by
  rw [← List.take_append_drop n findings, collect_append, h]
  rfl

/-- How many findings are entered before the budget is exhausted. -/
def Budget.room (b : Budget) : Nat := (b.limit - 1 - b.count).toNat

theorem Budget.room_of_exhausted {b : Budget} (h : b.exhausted = true) : b.room = 0 := by
  simp only [exhausted, ge_iff_le, decide_eq_true_eq] at h
  simp only [room]
  omega

theorem Budget.room_of_not_exhausted {b : Budget} (h : b.exhausted = false) :
    b.room = b.spend.room + 1 := by
  simp only [exhausted, ge_iff_le, decide_eq_false_iff_not] at h
  simp only [room, spend]
  omega

/-- An empty ledger takes in the findings that its budget has room for, and counts them. -/
theorem enter_eq_collect (b : Budget) (findings : List Finding) :
    ({ budget := b } : Ledger).enter findings = (collect (findings.take b.room)).map
      fun ds => ⟨{ b with count := b.count + ds.length }, ds⟩ := by
  induction findings generalizing b with
  | nil => simp [collect, Except.map]
  | cons finding rest ih =>
      cases hx : b.exhausted with
      | true =>
          have hfull : ({ budget := b } : Ledger).exhausted = true := hx
          rw [Ledger.enter_of_exhausted hfull, Budget.room_of_exhausted hx]
          simp [collect, Except.map]
      | false =>
          rw [Budget.room_of_not_exhausted hx, List.take_succ_cons]
          cases finding with
          | fault f => simp [Ledger.enter, Ledger.exhausted, hx, collect, Except.map]
          | problem d =>
              have hemit : ({ budget := b } : Ledger).emit d = ⟨b.spend, [d]⟩ := by
                simp [Ledger.emit, Ledger.emit?, Ledger.exhausted, hx]
              rw [Ledger.enter_problem, hemit, Ledger.enter_diagnostics, ih b.spend, collect]
              cases collect (rest.take b.spend.room) with
              | error f => rfl
              | ok ds =>
                  simp [Except.map, Budget.spend]
                  omega

namespace Analysis

/-- The findings of all passes over a text. The empty text is not passed over. -/
def textFindings (text : Text) : List Finding :=
  if text.isEmpty then []
  else findings (sourceLines text) (load (sourceLines text) (resolve (sourceLines text))).image

def textLabels (text : Text) : List Diagnostic :=
  if text.isEmpty then []
  else
    let r := resolve (sourceLines text)
    labelReport r (load (sourceLines text) r).unused

/-- The limit can be noted when the analysis is done. On the empty text nothing is noted. -/
def canNote (limit : Int) (text : Text) : Bool := text.isEmpty || Radix.isWritable limit

theorem canNote_of_isWritable {limit : Int} (h : Radix.isWritable limit = true) (text : Text) :
    canNote limit text = true := by
  rw [canNote, h, Bool.or_true]

theorem canNote_of_ne_nil {text : Text} (h : text ≠ []) (limit : Int) :
    canNote limit text = Radix.isWritable limit := by
  rw [canNote, List.isEmpty_eq_false_iff.mpr h, Bool.false_or]

private theorem limit_of_check {lines : List Line} {r : Resolution} {m : Memory} {budget : Budget}
    {a : Analysis} (h : check lines r m budget = .ok a) : a.budget.limit = budget.limit := by
  have hledger := ledger_check lines r m budget
  rw [h, enter_eq_collect] at hledger
  cases hc : collect ((findings lines m.image).take budget.room) with
  | error f =>
      rw [hc] at hledger
      cases hledger
  | ok ds =>
      simp only [hc, Except.map, ledger, Except.ok.injEq, Ledger.mk.injEq] at hledger
      rw [hledger.1]

def passes (limit : Int) (text : Text) : Except Fault Analysis :=
  check (sourceLines text) (resolve (sourceLines text))
    (load (sourceLines text) (resolve (sourceLines text))) { limit }

private theorem run_eq {text : Text} (h : text.isEmpty = false) (limit : Int) :
    run limit text = (passes limit text).bind fun a =>
      if Radix.isWritable limit then .ok a else .error .unwritable := by
  have hresolve : (resolve? (sourceLines text)).mapError Fault.undeclared =
      .ok (resolve (sourceLines text)) := by
    rw [resolve?_eq, resolve_eq]
    rfl
  simp only [run, h, Bool.false_eq_true, if_false, hresolve, bind, Except.bind, passes]
  generalize hcheck : check _ _ _ { limit } = checked
  cases checked with
  | error f => rfl
  | ok a =>
      have hlimit : a.budget.limit = limit := limit_of_check hcheck
      simp only [record, Radix.write?, hlimit]
      cases Radix.isWritable limit <;> rfl

private theorem run_nil (limit : Int) : run limit [] = .ok { budget := { limit } } := rfl

private theorem ledger_run (limit : Int) (text : Text) :
    (run limit text).map ledger =
      (({ budget := { limit } } : Ledger).enter (textFindings text)).bind fun entered =>
        if canNote limit text then .ok entered else .error .unwritable := by
  cases hempty : text.isEmpty with
  | true =>
      rw [List.isEmpty_iff.mp hempty]
      rfl
  | false =>
      have hpasses := ledger_check (sourceLines text) (resolve (sourceLines text))
        (load (sourceLines text) (resolve (sourceLines text))) { limit }
      rw [run_eq hempty, textFindings, canNote, hempty, if_neg Bool.false_ne_true, ← hpasses,
        Bool.false_or, passes]
      generalize check _ _ _ { limit } = checked
      cases checked with
      | error f => rfl
      | ok a => cases Radix.isWritable limit <;> rfl

private theorem passes_of_run {limit : Int} {text : Text} {a : Analysis}
    (h : run limit text = .ok a) (hfull : text.isEmpty = false) : passes limit text = .ok a := by
  rw [run_eq hfull] at h
  cases hpasses : passes limit text with
  | error f =>
      rw [hpasses] at h
      cases h
  | ok b =>
      rw [hpasses, Except.bind] at h
      split at h
      · exact h
      · cases h

private theorem fields_check {lines : List Line} {r : Resolution} {m : Memory} {budget : Budget}
    {a : Analysis} (h : check lines r m budget = .ok a) :
    a.resolution = r ∧ a.memory = m ∧ a.labels = labelReport r m.unused := by
  unfold check at h
  cases hf : checkForm { budget := (checkSpelling { budget } lines).budget } lines m.image with
  | error f => simp [hf, bind, Except.bind] at h
  | ok form =>
      cases hl : checkLogic { budget := form.budget } lines m.image with
      | error f => simp [hf, hl, bind, Except.bind] at h
      | ok logic =>
          simp only [hf, hl, bind, Except.bind, pure, Except.pure, Except.ok.injEq] at h
          rw [← h]
          exact ⟨rfl, rfl, rfl⟩

theorem labels_run {limit : Int} {text : Text} {a : Analysis} (h : run limit text = .ok a) :
    a.labels = textLabels text := by
  unfold textLabels
  cases hempty : text.isEmpty with
  | true =>
      rw [List.isEmpty_iff.mp hempty, run_nil] at h
      cases h
      rfl
  | false => exact (fields_check (passes_of_run h hempty)).2.2

theorem fields_run {limit : Int} {text : Text} {a : Analysis} (h : run limit text = .ok a) :
    let r := resolve (sourceLines text)
    a.resolution = r ∧ a.memory = load (sourceLines text) r ∧
      a.labels = labelReport r (load (sourceLines text) r).unused := by
  cases hempty : text.isEmpty with
  | true =>
      rw [List.isEmpty_iff.mp hempty, run_nil] at h
      cases h
      have hnothing : ({} : Resolution) = resolve (sourceLines []) ∧
          ({} : Memory) = load (sourceLines []) (resolve (sourceLines [])) ∧
          [] = labelReport (resolve (sourceLines []))
            (load (sourceLines []) (resolve (sourceLines []))).unused := by decide
      rw [List.isEmpty_iff.mp hempty]
      exact hnothing
  | false => exact fields_check (passes_of_run h hempty)

/-- An analysis gives the findings of its text, cut one short of the limit, or the failure among
them. Its budget has counted what is left. It fails as well when it cannot note the limit. -/
theorem ledger_run_eq_collect (limit : Int) (text : Text) :
    (run limit text).map ledger =
      (collect ((textFindings text).take (limit - 1).toNat)).bind fun ds =>
        if canNote limit text then .ok ⟨{ limit, count := ds.length }, ds⟩
        else .error .unwritable := by
  have hroom : ({ limit } : Budget).room = (limit - 1).toNat := by simp [Budget.room]
  rw [ledger_run, enter_eq_collect, hroom]
  cases collect ((textFindings text).take (limit - 1).toNat) with
  | error f => rfl
  | ok ds => simp [Except.map, Except.bind]

theorem collect_of_run {limit : Int} {text : Text} {a : Analysis} (h : run limit text = .ok a) :
    collect ((textFindings text).take (limit - 1).toNat) = .ok a.gated ∧
      a.budget.count = a.gated.length ∧ canNote limit text = true := by
  have hledger := ledger_run_eq_collect limit text
  rw [h] at hledger
  cases hc : collect ((textFindings text).take (limit - 1).toNat) with
  | error f =>
      rw [hc] at hledger
      cases hledger
  | ok ds =>
      cases hnote : canNote limit text with
      | false =>
          rw [hc, hnote] at hledger
          cases hledger
      | true =>
          simp only [hc, hnote, Except.map, Except.bind, ledger, if_true, Except.ok.injEq,
            Ledger.mk.injEq] at hledger
          obtain ⟨hbudget, hgated⟩ := hledger
          rw [hbudget, hgated]
          exact ⟨rfl, rfl, rfl⟩

theorem run_of_collect {limit : Int} {text : Text} {ds : List Diagnostic}
    (h : collect ((textFindings text).take (limit - 1).toNat) = .ok ds)
    (hnote : canNote limit text = true) : ∃ a, run limit text = .ok a ∧ a.gated = ds := by
  have hledger := ledger_run_eq_collect limit text
  rw [h, hnote] at hledger
  cases hr : run limit text with
  | error f =>
      rw [hr] at hledger
      cases hledger
  | ok a =>
      simp only [hr, Except.map, Except.bind, ledger, if_true, Except.ok.injEq,
        Ledger.mk.injEq] at hledger
      exact ⟨a, rfl, hledger.2⟩

/-- An analysis whose findings hold no failure fails only if it cannot note the limit. -/
theorem run_unwritable {limit : Int} {text : Text} {ds : List Diagnostic}
    (h : collect ((textFindings text).take (limit - 1).toNat) = .ok ds)
    (hnote : canNote limit text = false) : run limit text = .error .unwritable := by
  have hledger := ledger_run_eq_collect limit text
  rw [h, hnote] at hledger
  cases hr : run limit text with
  | error f =>
      rw [hr] at hledger
      cases hledger
      rfl
  | ok a =>
      rw [hr] at hledger
      cases hledger

theorem exists_error_of_not_canNote {limit : Int} {text : Text}
    (h : canNote limit text = false) : ∃ f, run limit text = .error f := by
  cases hrun : run limit text with
  | error f => exact ⟨f, rfl⟩
  | ok a =>
      have hnote := (collect_of_run hrun).2.2
      rw [h] at hnote
      cases hnote

end Analysis

end TeachAsm
