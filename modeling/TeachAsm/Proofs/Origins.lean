import TeachAsm.Proofs.LogicReport

/-!
# Origins

A statement names the origin that its operand starts with, whatever follows. The first statement
with an origin is remembered, and each later one is reported with that first line. Where the operand
word is an address, the origin is the counter that the walks go on with.
-/

namespace TeachAsm

/-- An `ORG` statement whose operand starts with this hexadecimal integer. -/
def Line.NamesOrigin (l : Line) (origin : Int) : Prop :=
  l.states .ORG = true ∧ ∃ n : Numeral, n.Leads .hexadecimal l.operand ∧
    n.value .hexadecimal = origin

private theorem Line.origin?_eq_some_iff {l : Line} {origin : Int} :
    l.origin? = some origin ↔ l.NamesOrigin origin := by
  rw [NamesOrigin, ← Radix.leading?_eq_some_iff, origin?]
  split
  · next hstates => simp [hstates]
  · next hstates => simp [hstates]

structure FirstNames (lines : List Line) (origin : Int) (first : Line) : Prop where
  mem : first ∈ lines
  names : first.NamesOrigin origin
  isFirst : ∀ l ∈ lines, l.NamesOrigin origin → first.index ≤ l.index

/-- The line names an origin, and another line above it is the first to name it. -/
structure RepeatsOrigin (lines : List Line) (l first : Line) : Prop where
  mem : l ∈ lines
  same : ∃ origin, l.NamesOrigin origin ∧ FirstNames lines origin first
  above : first.index < l.index

def originLine? (lines : List Line) (origin : Int) : Option Line :=
  lines.find? fun l => l.origin? = some origin

def Line.repeats? (lines : List Line) (l : Line) : Option Line :=
  l.origin?.bind fun origin => (originLine? lines origin).filter fun first => first.index < l.index

private theorem originLine?_concat (front : List Line) (l : Line) (origin : Int) :
    originLine? (front ++ [l]) origin =
      (originLine? front origin).or (if l.origin? = some origin then some l else none) := by
  rw [originLine?, List.find?_append, originLine?]
  by_cases h : l.origin? = some origin <;> simp [h]

private theorem originLine?_eq_some {lines : List Line} {origin : Int} {l : Line}
    (h : originLine? lines origin = some l) : l ∈ lines ∧ l.origin? = some origin := by
  refine ⟨List.mem_of_find?_eq_some h, ?_⟩
  simpa using List.find?_some h

/-- What the scan remembers of the lines in front of it: each origin with its first line. -/
def Remembers (front : List Line) (seen : List (Int × Nat)) : Prop :=
  ∀ origin, Table.find? origin seen = (originLine? front origin).map fun l => l.index + 1

section

variable {front : List Line} {seen : List (Int × Nat)} {l : Line} (h : Remembers front seen)

include h

theorem Remembers.add {origin : Int} (horigin : l.origin? = some origin)
    (hnew : Table.find? origin seen = none) :
    Remembers (front ++ [l]) (seen ++ [(origin, l.index + 1)]) := by
  intro other
  rw [Table.find?_concat, originLine?_concat, h other, horigin]
  by_cases hsame : origin = other
  · rw [h, Option.map_eq_none_iff] at hnew
    simp [← hsame, hnew]
  · simp [hsame]

/-- A line with no origin, or with one that is known, leaves what is remembered as it is. -/
private theorem Remembers.pass
    (hknown : ∀ origin, l.origin? = some origin → Table.find? origin seen ≠ none) :
    Remembers (front ++ [l]) seen := by
  intro other
  rw [originLine?_concat, h other]
  by_cases hother : l.origin? = some other
  · have hfound := hknown other hother
    rw [h, ne_eq, Option.map_eq_none_iff] at hfound
    obtain ⟨first, hfirst⟩ := Option.ne_none_iff_exists'.mp hfound
    simp [hfirst]
  · simp [hother]

end

/-- The line above that a line repeats is the first one in front of it with the same origin. -/
private theorem Line.repeats?_of_origin? {front rest : List Line} {l : Line} {origin : Int}
    (hordered : (front ++ [l] ++ rest).Pairwise fun l l' => l.index < l'.index)
    (horigin : l.origin? = some origin) :
    l.repeats? (front ++ [l] ++ rest) = originLine? front origin := by
  have hfound : originLine? (front ++ [l] ++ rest) origin =
      some ((originLine? front origin).getD l) := by
    rw [originLine?, List.find?_append, ← originLine?, originLine?_concat, if_pos horigin]
    cases originLine? front origin <;> rfl
  rw [repeats?, horigin, Option.bind_some, hfound]
  cases hfront : originLine? front origin with
  | none => simp
  | some first =>
      have habove : first.index < l.index := by
        rw [List.append_assoc, List.pairwise_append] at hordered
        exact hordered.2.2 first (originLine?_eq_some hfront).1 l (by simp)
      simp [habove]

def repeatDiagnostic (l first : Line) : Diagnostic :=
  ⟨l.wholeRange, .duplicateOrigin (first.index + 1)⟩

/-- The scan finds each line that repeats the origin of a line above it. -/
private theorem originFindings_eq {front rest : List Line} {seen : List (Int × Nat)}
    (hordered : (front ++ rest).Pairwise fun l l' => l.index < l'.index)
    (hseen : Remembers front seen) :
    originFindings seen rest =
      rest.filterMap fun l => (l.repeats? (front ++ rest)).map fun first =>
        .problem (repeatDiagnostic l first) := by
  induction rest generalizing front seen with
  | nil => rfl
  | cons l rest ih =>
      rw [List.append_cons] at hordered ⊢
      rw [originFindings, List.filterMap_cons]
      cases horigin : l.origin? with
      | none =>
          have hnone : l.repeats? (front ++ [l] ++ rest) = none := by simp [Line.repeats?, horigin]
          rw [hnone, ih hordered (hseen.pass (by simp [horigin]))]
          rfl
      | some origin =>
          rw [Line.repeats?_of_origin? hordered horigin]
          have hremembered := hseen origin
          cases hfront : originLine? front origin with
          | none =>
              rw [hfront, Option.map_none] at hremembered
              simp only [hremembered]
              rw [ih hordered (hseen.add horigin hremembered)]
              rfl
          | some first =>
              rw [hfront, Option.map_some] at hremembered
              have hknown : ∀ o, l.origin? = some o → Table.find? o seen ≠ none := by
                intro o ho
                rw [horigin, Option.some.injEq] at ho
                simp [← ho, hremembered]
              simp only [hremembered]
              rw [ih hordered (hseen.pass hknown)]
              rfl

section

variable {text : Text} {origin : Int} {l first : Line}

private theorem firstNames_of_originLine? (h : originLine? (sourceLines text) origin = some first) :
    FirstNames (sourceLines text) origin first := by
  obtain ⟨hmem, horigin⟩ := originLine?_eq_some h
  refine ⟨hmem, Line.origin?_eq_some_iff.mp horigin, ?_⟩
  intro l hl hnames
  rw [originLine?, List.find?_eq_some_iff_append] at h
  obtain ⟨-, front, back, hsplit, hfront⟩ := h
  have hordered := pairwise_index_sourceLines text
  rw [hsplit] at hl hordered
  rw [List.pairwise_append, List.pairwise_cons] at hordered
  rcases List.mem_append.mp hl with hl | hl
  · have hnot := hfront l hl
    simp [Line.origin?_eq_some_iff.mpr hnames] at hnot
  · rcases List.mem_cons.mp hl with rfl | hl
    · exact Nat.le_refl _
    · exact Nat.le_of_lt (hordered.2.1.1 l hl)

private theorem exists_firstNames (hl : l ∈ sourceLines text) (hnames : l.NamesOrigin origin) :
    ∃ first, originLine? (sourceLines text) origin = some first := by
  rw [← Option.isSome_iff_exists, originLine?, List.find?_isSome]
  exact ⟨l, hl, by simpa using Line.origin?_eq_some_iff.mpr hnames⟩

private theorem originLine?_eq_some_iff :
    originLine? (sourceLines text) origin = some first ↔
      FirstNames (sourceLines text) origin first := by
  constructor
  · exact firstNames_of_originLine?
  · intro h
    obtain ⟨found, hfound⟩ := exists_firstNames h.mem h.names
    have hfirst := firstNames_of_originLine? hfound
    have hindex : first.index = found.index :=
      Nat.le_antisymm (h.isFirst found hfirst.mem hfirst.names)
        (hfirst.isFirst first h.mem h.names)
    rw [hfound, eq_of_index_eq h.mem hfirst.mem hindex]

private theorem repeats?_eq_some_iff (hl : l ∈ sourceLines text) :
    l.repeats? (sourceLines text) = some first ↔ RepeatsOrigin (sourceLines text) l first := by
  simp only [Line.repeats?, Option.bind_eq_some_iff, Option.filter_eq_some_iff,
    originLine?_eq_some_iff, Line.origin?_eq_some_iff, decide_eq_true_eq]
  constructor
  · intro h
    obtain ⟨origin, hnames, hfirst, habove⟩ := h
    exact ⟨hl, ⟨origin, hnames, hfirst⟩, habove⟩
  · intro h
    obtain ⟨origin, hnames, hfirst⟩ := h.same
    exact ⟨origin, hnames, hfirst, h.above⟩

private theorem exists_repeatsOrigin_iff (hl : l ∈ sourceLines text)
    (hnames : l.NamesOrigin origin) : (∃ first, RepeatsOrigin (sourceLines text) l first) ↔
      ∃ earlier ∈ sourceLines text, earlier.NamesOrigin origin ∧ earlier.index < l.index := by
  constructor
  · intro h
    obtain ⟨first, hrepeats⟩ := h
    obtain ⟨origin', hnames', hfirst⟩ := hrepeats.same
    have hsame : origin' = origin := by
      rw [← Line.origin?_eq_some_iff] at hnames hnames'
      rw [hnames, Option.some.injEq] at hnames'
      exact hnames'.symm
    exact ⟨first, hfirst.mem, hsame ▸ hfirst.names, hrepeats.above⟩
  · intro h
    obtain ⟨earlier, hmem, hearlier, habove⟩ := h
    obtain ⟨first, hfound⟩ := exists_firstNames hmem hearlier
    have hfirst := firstNames_of_originLine? hfound
    have hle := hfirst.isFirst earlier hmem hearlier
    exact ⟨first, hl, ⟨origin, hnames, hfirst⟩, Nat.lt_of_le_of_lt hle habove⟩

private theorem reports_originFindings (text : Text) :
    ReportsInOrder
      (reported (fun q => q.site = .origin) (originFindings [] (sourceLines text)))
      (fun r : Line × Line => r.1.index) (fun r => repeatDiagnostic r.1 r.2)
      (fun r => RepeatsOrigin (sourceLines text) r.1 r.2) := by
  have hordered := pairwise_index_sourceLines text
  have hnothing : Remembers [] [] := fun _ => rfl
  have hfound := @originFindings_eq [] (sourceLines text) [] hordered hnothing
  refine ⟨(sourceLines text).filterMap fun l =>
    (l.repeats? (sourceLines text)).map fun first => (l, first), ?_, ?_, ?_⟩
  · rw [List.pairwise_filterMap]
    refine hordered.imp ?_
    intro l l' hlt r hr r' hr'
    rw [Option.map_eq_some_iff] at hr hr'
    obtain ⟨first, -, rfl⟩ := hr
    obtain ⟨first', -, rfl⟩ := hr'
    exact hlt
  · intro r
    obtain ⟨l, first⟩ := r
    simp only [List.mem_filterMap, Option.map_eq_some_iff, Prod.mk.injEq]
    constructor
    · intro h
      obtain ⟨l, hl, first, hrepeats, rfl, rfl⟩ := h
      exact (repeats?_eq_some_iff hl).mp hrepeats
    · intro h
      exact ⟨l, h.mem, first, (repeats?_eq_some_iff h.mem).mpr h, rfl, rfl⟩
  · have hproblems : originFindings [] (sourceLines text) =
        (((sourceLines text).filterMap fun l =>
          (l.repeats? (sourceLines text)).map fun first => (l, first)).map
            fun r => repeatDiagnostic r.1 r.2).map .problem := by
      rw [hfound, List.map_map, List.map_filterMap]
      apply List.filterMap_congr
      intro l hl
      rw [Option.map_map]
      rfl
    rw [hproblems, reported_problems, List.filter_eq_self]
    intro d hd
    obtain ⟨r, -, rfl⟩ := List.mem_map.mp hd
    rfl

end

/-- The line names an address as its origin, and the walks go on with it: the statement walk always,
the label walk if the line has no label. -/
structure Line.SetsCounter (l : Line) (lines : List Line) (address : Nat) : Prop where
  named : ∀ origin, l.NamesOrigin origin ↔ origin = (address : Int)
  loaded : ∀ counter, counterAt Line.statementStep 0 lines l.index = some counter →
    counterAt Line.statementStep 0 lines (l.index + 1) = some address
  resolved : l.hasLabel = false →
    ∀ counter, counterAt Line.labelStep 0 lines l.index = some counter →
      counterAt Line.labelStep 0 lines (l.index + 1) = some address

private theorem Line.setsCounter_of_address? {text : Text} {l : Line} {address : Nat}
    (hl : l ∈ sourceLines text) (hstates : l.states .ORG = true)
    (haddress : address? l.operandWord = some address) :
    l.SetsCounter (sourceLines text) address := by
  have hline := getElem?_of_mem_sourceLines hl
  have hstep : l.statementStep = .origin (some address) := by
    obtain ⟨hblank, hmnemonic⟩ := states_iff.mp hstates
    simp [statementStep, hblank, hmnemonic, haddress]
  have hnext {reading : Line → Step} (hreading : reading l = .origin (some address))
      (counter : Nat) (hcounter : counterAt reading 0 (sourceLines text) l.index = some counter) :
      counterAt reading 0 (sourceLines text) (l.index + 1) = some address := by
    rw [counterAt_succ reading 0 hline, hcounter, hreading]
    rfl
  refine ⟨?_, hnext hstep, ?_⟩
  · intro origin
    rw [← origin?_eq_some_iff, origin?_of_address? hstates haddress, Option.some.injEq]
    exact eq_comm
  · intro hlabel
    exact hnext ((labelStep_of_not_hasLabel hlabel).trans hstep)

/-- Under a budget that lasts, an origin is reported on every line that names it except the first
one, which the report gives, and on no other line. Where the operand word is an address, the origin
is the counter that the walks go on with. -/
theorem repeated_origins_reported {limit : Int} {text : Text} {a : Analysis}
    (h : Analysis.run limit text = .ok a) (hbudget : a.budget.exhausted = false) :
    let lines := sourceLines text
    ReportsInOrder (a.diagnostics.filter fun d => d.problem.site = .origin)
      (fun r : Line × Line => r.1.index)
      (fun r => ⟨r.1.wholeRange, .duplicateOrigin (r.2.index + 1)⟩)
      (fun r => RepeatsOrigin lines r.1 r.2) ∧
    (∀ l ∈ lines, ∀ origin, l.NamesOrigin origin →
      ((∃ first, RepeatsOrigin lines l first) ↔
        ∃ earlier ∈ lines, earlier.NamesOrigin origin ∧ earlier.index < l.index)) ∧
    (∀ l ∈ lines, l.states .ORG = true → ∀ address, address? l.operandWord = some address →
      l.SetsCounter lines address) := by
  intro lines
  refine ⟨?_, fun l hl origin => exists_repeatsOrigin_iff hl, fun l hl hstates address =>
    Line.setsCounter_of_address? hl hstates⟩
  rw [Analysis.filter_origins h hbudget]
  exact reports_originFindings text

/-- The same origin is written with zeros in front and with a letter behind that is no digit. -/
theorem repeated_origin_reported_zeros :
    let text : Text := .ofString "ORG 10\nHLT\nA, ORG\u3000 0010H\nEND"
    ∃ a, Analysis.run 100 text = .ok a ∧ a.budget.exhausted = false ∧
      ∃ first, RepeatsOrigin (sourceLines text) ⟨2, .ofString "A, ORG\u3000 0010H"⟩ first := by
  intro text
  have heval : (Analysis.run 100 text).toOption.map (fun a => a.budget.exhausted) = some false := by
    decide +kernel
  obtain ⟨a, hrun, hbudget⟩ := exists_ok_of_toOption heval
  have hnames {l : Line} (horigin : l.origin? = some 16) : l.NamesOrigin 16 :=
    Line.origin?_eq_some_iff.mp horigin
  have hiff := (repeated_origins_reported hrun hbudget).2.1 ⟨2, .ofString "A, ORG\u3000 0010H"⟩
    (by decide +kernel) 16 (hnames (by decide +kernel))
  exact ⟨a, hrun, hbudget, hiff.mpr ⟨⟨0, .ofString "ORG 10"⟩, by decide +kernel,
    hnames (by decide +kernel), by decide⟩⟩

end TeachAsm
