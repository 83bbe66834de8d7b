import TeachAsm.Proofs.Bindings
import TeachAsm.Proofs.LoadedMemory
import TeachAsm.Proofs.Slices

/-!
# Agreement of the two walks

The label walk and the statement walk read a line by different words. They take the same step on
every line but a labelled one that mentions `ORG` or `END`, so up to the first such line they reach
every line with the same counter. Without one, a label is bound to the address at which its line is
laid out.
-/

namespace TeachAsm

/-- The counter after a step, unless the walk stops there. -/
def Step.next? (counter : Nat) : Step → Option Nat
  | .skip => some counter
  | .origin address => some (address.getD counter)
  | .stop => none
  | .occupy => some (counter + 1)

/-- The counter with which a walk reaches a line, given by its position, unless it stops before. -/
def counterAt (reading : Line → Step) : Nat → List Line → Nat → Option Nat
  | counter, _, 0 => some counter
  | _, [], _ + 1 => none
  | counter, l :: rest, i + 1 =>
    ((reading l).next? counter).bind fun counter => counterAt reading counter rest i

/-- A walk places the lines that occupy a word, at the counter with which it reaches them. -/
theorem mem_place_iff (reading : Line → Step) (counter : Nat) (lines : List Line)
    (p : Placement) :
    p ∈ place reading counter lines ↔ ∃ i, lines[i]? = some p.line ∧
      counterAt reading counter lines i = some p.address ∧ reading p.line = .occupy := by
  induction lines generalizing counter with
  | nil => simp [place]
  | cons l rest ih =>
      rw [place, ← Nat.or_exists_add_one]
      simp only [List.getElem?_cons_zero, List.getElem?_cons_succ, counterAt, Option.some.injEq]
      -- a line that does not occupy a word is not placed itself
      have hpass (h : reading l ≠ .occupy) (rest : Prop) :
          ((l = p.line ∧ counter = p.address ∧ reading p.line = .occupy) ∨ rest) ↔ rest := by
        refine ⟨?_, .inr⟩
        rintro (⟨rfl, -, ho⟩ | hrest)
        · exact absurd ho h
        · exact hrest
      cases hstep : reading l with
      | skip =>
          rw [hpass (by simp [hstep])]
          exact ih counter
      | origin address =>
          rw [hpass (by simp [hstep])]
          exact ih _
      | stop =>
          rw [hpass (by simp [hstep])]
          simp [Step.next?]
      | occupy =>
          simp only [Step.next?, Option.bind_some, List.mem_cons, ih]
          refine or_congr ?_ Iff.rfl
          constructor
          · rintro rfl
            exact ⟨rfl, rfl, hstep⟩
          · rintro ⟨rfl, rfl, -⟩
            rfl

theorem counterAt_succ (reading : Line → Step) (counter : Nat) {lines : List Line} {i : Nat}
    {l : Line} (h : lines[i]? = some l) :
    counterAt reading counter lines (i + 1) =
      (counterAt reading counter lines i).bind fun counter => (reading l).next? counter := by
  induction lines generalizing counter i with
  | nil => cases h
  | cons first rest ih =>
      cases i with
      | zero =>
          rw [List.getElem?_cons_zero, Option.some.injEq] at h
          subst h
          cases hnext : (reading first).next? counter <;> simp [counterAt, hnext]
      | succ i =>
          rw [List.getElem?_cons_succ] at h
          rw [counterAt, counterAt]
          cases (reading first).next? counter with
          | none => rfl
          | some next => exact ih next h

/-- Walks whose readings agree on the lines above a position reach it with the same counter. -/
private theorem counterAt_congr {first second : Line → Step} (counter : Nat) (lines : List Line)
    (i : Nat) (h : ∀ j l, j < i → lines[j]? = some l → first l = second l) :
    counterAt first counter lines i = counterAt second counter lines i := by
  induction i generalizing counter lines with
  | zero => cases lines <;> rfl
  | succ i ih =>
      cases lines with
      | nil => rfl
      | cons l rest =>
          have hhead : first l = second l := h 0 l (by omega) rfl
          have htail (counter : Nat) := ih counter rest fun j l hj hl => h (j + 1) l (by omega) hl
          simp only [counterAt, hhead, htail]

theorem place_congr {first second : Line → Step} (counter : Nat) {lines : List Line}
    (h : ∀ l ∈ lines, first l = second l) :
    place first counter lines = place second counter lines := by
  induction lines generalizing counter with
  | nil => rfl
  | cons l rest ih =>
      have hhead : first l = second l := h l List.mem_cons_self
      have htail (counter : Nat) := ih counter fun l hl => h l (List.mem_cons_of_mem _ hl)
      simp only [place, hhead, htail]

theorem place_sublist (reading : Line → Step) (counter : Nat) (lines : List Line) :
    ((place reading counter lines).map Placement.line).Sublist lines := by
  induction lines generalizing counter with
  | nil => exact .slnil
  | cons l rest ih =>
      rw [place]
      cases reading l with
      | skip => exact (ih _).cons l
      | origin address => exact (ih _).cons l
      | stop => exact List.nil_sublist _
      | occupy => exact (ih _).cons_cons l

namespace Line

/-- A labelled statement that mentions `ORG` or `END`, as its label or as its mnemonic. -/
def isContested (l : Line) : Bool :=
  !l.isBlank && l.hasLabel &&
    (l.label ∈ [Mnemonic.spelling .ORG, Mnemonic.spelling .END] ||
      l.mnemonic ∈ [Mnemonic.spelling .ORG, Mnemonic.spelling .END])

private theorem stripped_not_mem {l : Line} (h : l.hasLabel = false) :
    labelSeparator ∉ l.stripped := by
  intro hmem
  have htext : labelSeparator ∈ l.text := (Text.strip_isInfix l.text).mem hmem
  simp [hasLabel, htext] at h

theorem statement_of_not_hasLabel {l : Line} (h : l.hasLabel = false) :
    l.statement = l.stripped := by
  rw [statement, Text.afterLast_of_not_mem (stripped_not_mem h)]
  exact Text.strip_strip l.text

theorem label_of_not_hasLabel {l : Line} (h : l.hasLabel = false) : l.label = l.mnemonic := by
  rw [label, Text.beforeFirst_of_not_mem (stripped_not_mem h), mnemonic, words,
    statement_of_not_hasLabel h]

theorem labelStep_of_not_hasLabel {l : Line} (h : l.hasLabel = false) :
    l.labelStep = l.statementStep := by
  have hoperand : l.operandWord = (Text.words l.stripped).getD 1 [] := by
    rw [operandWord, words, statement_of_not_hasLabel h]
  rw [labelStep, statementStep, mnemonic?, label_of_not_hasLabel h, hoperand]

/-- Both walks let a labelled line occupy a word that does not mention `ORG` or `END`. -/
theorem steps_of_hasLabel {l : Line} (hlabel : l.hasLabel = true) (hblank : l.isBlank = false)
    (h : l.isContested = false) : l.labelStep = .occupy ∧ l.statementStep = .occupy := by
  have hspell {word : Text} {m : Mnemonic} (hw : Mnemonic.ofWord? word = some m) :
      word = m.spelling := (Mnemonic.spelling_of_ofWord? hw).symm
  simp only [isContested, hblank, hlabel, Bool.not_false, Bool.and_self, Bool.true_and,
    Bool.or_eq_false_iff, decide_eq_false_iff_not, List.mem_cons, List.not_mem_nil, or_false,
    not_or] at h
  obtain ⟨⟨hl₁, hl₂⟩, hm₁, hm₂⟩ := h
  constructor
  · simp only [labelStep, hblank, Bool.false_eq_true, if_false]
    split
    · next hw => exact absurd (hspell hw) hl₁
    · next hw => exact absurd (hspell hw) hl₂
    · rfl
  · simp only [statementStep, hblank, Bool.false_eq_true, if_false, mnemonic?]
    split
    · next hw => exact absurd (hspell hw) hm₁
    · next hw => exact absurd (hspell hw) hm₂
    · rfl

theorem labelStep_eq_statementStep {l : Line} (h : l.isContested = false) :
    l.labelStep = l.statementStep := by
  cases hlabel : l.hasLabel with
  | false => exact labelStep_of_not_hasLabel hlabel
  | true =>
      cases hblank : l.isBlank with
      | true => simp [labelStep, statementStep, hblank]
      | false =>
          obtain ⟨hfirst, hsecond⟩ := steps_of_hasLabel hlabel hblank h
          rw [hfirst, hsecond]

end Line

theorem Line.line_cell (l : Line) (symbols : Table Text Nat) :
    (l.cell symbols).line = some ((l.index : Int) + 1) := by
  unfold cell
  split
  · split <;> rfl
  · rfl

namespace Image

theorem lines_store?_of_ne (image : Image) {address a : Nat} (h : address ≠ a) (c : Cell) :
    ((image.store? address c).getD image).lines.get? a = image.lines.get? a := by
  unfold store?
  split
  · simp only [Option.getD_some, store, Int.toNat_natCast]
    split
    · simp [Ne.symm h]
    · rfl
  · rfl

theorem lines_store?_self (image : Image) {address : Nat} (h : address < memorySize) {c : Cell}
    {line : Int} (hline : c.line = some line) :
    ((image.store? address c).getD image).lines.get? address = some line := by
  simp [store?, h, store, hline]

private theorem lines_foldl_of_ne (image : Image) (writes : List (Nat × Cell)) {a : Nat}
    (h : ∀ w ∈ writes, w.1 ≠ a) :
    (writes.foldl (fun image w => (image.store? w.1 w.2).getD image) image).lines.get? a =
      image.lines.get? a := by
  induction writes generalizing image with
  | nil => rfl
  | cons w rest ih =>
      rw [List.foldl_cons, ih _ fun v hv => h v (List.mem_cons_of_mem _ hv)]
      exact lines_store?_of_ne image (h w List.mem_cons_self) w.2

private theorem lineOf?_ofWrites (earlier later : List (Nat × Cell)) {address : Nat} {c : Cell}
    {line : Int} (haddress : address < memorySize) (hline : c.line = some line)
    (hlater : ∀ w ∈ later, w.1 ≠ address) :
    (ofWrites (earlier ++ (address, c) :: later)).lineOf? address = some line := by
  have hpos : 0 ≤ (address : Int) := Int.natCast_nonneg address
  rw [lineOf?, if_pos hpos, Int.toNat_natCast, ofWrites, List.foldl_append, List.foldl_cons,
    lines_foldl_of_ne _ later hlater]
  exact lines_store?_self _ haddress hline

end Image

private theorem exists_last_placement {placements : List Placement} {p : Placement}
    (h : p ∈ placements) :
    ∃ earlier q later, placements = earlier ++ q :: later ∧ q.address = p.address ∧
      ∀ v ∈ later, v.address ≠ p.address := by
  induction placements generalizing p with
  | nil => cases h
  | cons first rest ih =>
      by_cases hrest : ∃ q ∈ rest, q.address = p.address
      · obtain ⟨q, hq, haddress⟩ := hrest
        obtain ⟨earlier, last, later, hsplit, hlast, hlater⟩ := ih hq
        rw [haddress] at hlast hlater
        exact ⟨first :: earlier, last, later, by rw [hsplit, List.cons_append], hlast, hlater⟩
      · have hother : ∀ v ∈ rest, v.address ≠ p.address := fun v hv ha => hrest ⟨v, hv, ha⟩
        rcases List.mem_cons.mp h with rfl | hp
        · exact ⟨[], p, rest, rfl, rfl, hother⟩
        · exact absurd rfl (hother p hp)

theorem pairwise_index_place (reading : Line → Step) (text : Text) :
    (place reading 0 (sourceLines text)).Pairwise (·.line.index < ·.line.index) := by
  have hlines := (pairwise_index_sourceLines text).sublist
    (place_sublist reading 0 (sourceLines text))
  rw [List.pairwise_map] at hlines
  exact hlines

/-- The line that the image has for the address of a placed statement is its own exactly when no
later statement is placed there. -/
private theorem lineOf?_load_iff {text : Text} {r : Resolution} {p : Placement}
    (hp : p ∈ statements (sourceLines text)) (haddress : p.address < memorySize) :
    (load (sourceLines text) r).image.lineOf? p.address = some ((p.line.index : Int) + 1) ↔
      ∀ q ∈ statements (sourceLines text), q.address = p.address →
        q.line.index ≤ p.line.index := by
  obtain ⟨earlier, last, later, hsplit, hlast, hlater⟩ := exists_last_placement hp
  have hordered := pairwise_index_place Line.statementStep text
  rw [← statements, hsplit, List.pairwise_append, List.pairwise_cons] at hordered
  have hupper : ∀ q ∈ statements (sourceLines text), q.address = p.address →
      q.line.index ≤ last.line.index := by
    intro q hq ha
    rw [hsplit] at hq
    rcases List.mem_append.mp hq with hq | hq
    · exact Nat.le_of_lt (hordered.2.2 q hq last List.mem_cons_self)
    · rcases List.mem_cons.mp hq with rfl | hq
      · exact Nat.le_refl _
      · exact absurd ha (hlater q hq)
  have hmem : last ∈ statements (sourceLines text) := by
    rw [hsplit]
    exact List.mem_append_right _ List.mem_cons_self
  have himage : (load (sourceLines text) r).image.lineOf? p.address =
      some ((last.line.index : Int) + 1) := by
    rw [load_image, hsplit, List.map_append, List.map_cons, hlast]
    apply Image.lineOf?_ofWrites _ _ haddress (Line.line_cell _ _)
    intro w hw
    obtain ⟨v, hv, rfl⟩ := List.mem_map.mp hw
    exact hlater v hv
  rw [himage]
  constructor
  · intro heq q hq ha
    have hle := hupper q hq ha
    simp only [Option.some.injEq] at heq
    omega
  · intro hno
    have hfirst := hno last hmem hlast
    have hsecond := hupper p hp rfl
    simp only [Option.some.injEq]
    omega

private theorem mem_dropped_load_iff {lines : List Line} {r : Resolution} {p : Placement}
    (hp : p ∈ statements lines) :
    (p.address, p.line.cell r.symbols) ∈ (load lines r).dropped ↔ memorySize ≤ p.address := by
  have hwrite : (p.address, p.line.cell r.symbols) ∈
      (statements lines).map fun p => (p.address, p.line.cell r.symbols) :=
    List.mem_map_of_mem hp
  rw [load_dropped, List.mem_filter, decide_eq_true_eq]
  exact ⟨fun h => h.2, fun h => ⟨hwrite, h⟩⟩

theorem mem_place_sourceLines_iff (reading : Line → Step) {text : Text} {i : Nat} {l : Line}
    (hl : (sourceLines text)[i]? = some l) (address : Nat) :
    ⟨address, l⟩ ∈ place reading 0 (sourceLines text) ↔
      counterAt reading 0 (sourceLines text) i = some address ∧ reading l = .occupy := by
  rw [mem_place_iff]
  constructor
  · rintro ⟨j, hj, hcounter, hstep⟩
    have hij : j = i := by rw [← getElem?_sourceLines hj, getElem?_sourceLines hl]
    exact ⟨hij ▸ hcounter, hstep⟩
  · rintro ⟨hcounter, hstep⟩
    exact ⟨i, hl, hcounter, hstep⟩

/-- Up to the first contested line the two walks read every line alike, pass it with the same
counter if they reach it, and place it at the same address or not at all. Without a contested line,
the line that declares a label is laid out at the address of the label: past the end of memory it
is dropped, and inside memory it is the line of that address exactly when no later statement is
laid out there. -/
theorem walks_agree_above_contested (text : Text) :
    let lines := sourceLines text
    let r := resolve lines
    let m := load lines r
    (∀ i l, i < lines.findIdx Line.isContested → lines[i]? = some l →
      l.labelStep = l.statementStep ∧
      counterAt Line.labelStep 0 lines i = counterAt Line.statementStep 0 lines i ∧
      counterAt Line.labelStep 0 lines (i + 1) = counterAt Line.statementStep 0 lines (i + 1) ∧
      ∀ address, ⟨address, l⟩ ∈ place Line.labelStep 0 lines ↔ ⟨address, l⟩ ∈ statements lines) ∧
    (lines.findIdx Line.isContested = lines.length →
      ∀ label address, r.symbols.get? label = some address →
        ∃ line l, r.declarations.get? label = some line ∧ lines[line]? = some l ∧
          l.label = label ∧ ⟨address, l⟩ ∈ statements lines ∧
          ((address, l.cell r.symbols) ∈ m.dropped ↔ memorySize ≤ address) ∧
          (address < memorySize →
            (m.image.lineOf? address = some ((line : Int) + 1) ↔
              ∀ p ∈ statements lines, p.address = address → p.line.index ≤ line))) := by
  intro lines r m
  constructor
  · intro i l hi hl
    have hagree (j : Nat) (hj : j < i + 1) (l : Line) (hl : lines[j]? = some l) :
        l.labelStep = l.statementStep := by
      apply Line.labelStep_eq_statementStep
      obtain ⟨hlt, rfl⟩ := List.getElem?_eq_some_iff.mp hl
      have hfirst : j < lines.findIdx Line.isContested := by omega
      simpa using List.not_of_lt_findIdx hfirst
    have hstep := hagree i (by omega) l hl
    have hcounter := counterAt_congr 0 lines i fun j l hj hl => hagree j (by omega) l hl
    refine ⟨hstep, hcounter, ?_, ?_⟩
    · exact counterAt_congr 0 lines (i + 1) fun j l hj hl => hagree j hj l hl
    · intro address
      rw [statements, mem_place_sourceLines_iff _ hl, mem_place_sourceLines_iff _ hl, hcounter,
        hstep]
  · intro hnone label address haddress
    have hagree : ∀ l ∈ lines, l.labelStep = l.statementStep := fun l hl =>
      Line.labelStep_eq_statementStep (by simpa using List.findIdx_eq_length.mp hnone l hl)
    have hplaced : place Line.labelStep 0 lines = statements lines := place_congr 0 hagree
    have hr : r = (bindings lines).tables := resolve_eq lines
    rw [hr, Bindings.get?_symbols_tables, Option.map_eq_some_iff] at haddress
    obtain ⟨d, hd, rfl⟩ := haddress
    have hd' := hd
    rw [bindings, hplaced] at hd'
    rcases Bindings.exists_placement_of_labels hd' with hstart | ⟨p, hp, hlabel, haddress, hline⟩
    · cases hstart
    · have hmem : p.line ∈ lines :=
        (place_sublist Line.statementStep 0 lines).subset (List.mem_map_of_mem hp)
      have hdeclared : r.declarations.get? label = some d.line := by
        rw [hr, Bindings.get?_declarations_tables, hd, Option.map_some]
      refine ⟨d.line, p.line, hdeclared, ?_, hlabel, ?_, ?_, ?_⟩
      · rw [← hline]
        exact getElem?_of_mem_sourceLines hmem
      · rw [← haddress]
        exact hp
      · rw [← haddress]
        exact mem_dropped_load_iff hp
      · rw [← haddress, ← hline]
        exact lineOf?_load_iff hp

/-- `B` is declared behind an origin that moves the counter back, on the line that overwrites the
first one. -/
theorem walks_agree_above_contested_overwrite :
    let text : Text := .ofChars ['A', ',', 'D', 'E', 'C', ' ', '1', '\n', 'O', 'R', 'G', ' ', '0',
      '\n', 'B', ',', 'L', 'D', 'A', ' ', 'A', '\n', 'E', 'N', 'D']
    let lines := sourceLines text
    let r := resolve lines
    lines.findIdx Line.isContested = 4 ∧ r.symbols.get? (.ofChars ['B']) = some 0 ∧
      (∃ line l, r.declarations.get? (.ofChars ['B']) = some line ∧ lines[line]? = some l ∧
        ⟨0, l⟩ ∈ statements lines ∧ (0, l.cell r.symbols) ∉ (load lines r).dropped) ∧
      ∃ l, lines[1]? = some l ∧ l.labelStep = l.statementStep := by
  intro text lines r
  have hnone : lines.findIdx Line.isContested = 4 := by decide +kernel
  have hlength : lines.length = 4 := by decide +kernel
  have hsymbol : r.symbols.get? (.ofChars ['B']) = some 0 := by decide +kernel
  obtain ⟨habove, hbound⟩ := walks_agree_above_contested text
  obtain ⟨line, l, hline, hl, -, hmem, hdropped, -⟩ :=
    hbound (hnone.trans hlength.symm) (.ofChars ['B']) 0 hsymbol
  obtain ⟨second, hsecond⟩ : ∃ l, lines[1]? = some l :=
    ⟨_, List.getElem?_eq_getElem (by omega : 1 < lines.length)⟩
  refine ⟨hnone, hsymbol, ⟨line, l, hline, hl, hmem, ?_⟩, second, hsecond, ?_⟩
  · intro h
    exact absurd (hdropped.mp h) (by decide)
  · exact (habove 1 second (Nat.lt_of_lt_of_eq (by decide) hnone.symm) hsecond).1

end TeachAsm
