import TeachAsm.Proofs.Positions
import TeachAsm.Proofs.Silence

/-!
# Declarations

What the tables of the label walk hold. A label is bound by its last declaration and stands in the
order of its first one; a word that is no label is noted with the last line that uses it; a
redeclaration is noted under the counter at which it stands. In each table a key holds the latest of
the lines that were entered under it, however often the counter and the labels recur.
-/

namespace TeachAsm

/-- The one on the last line among those that have a property. -/
structure Latest {α : Type} (line : α → Nat) (p : α → Prop) (x : α) : Prop where
  holds : p x
  last : ∀ y, p y → line y ≤ line x

namespace Latest

variable {α : Type} {line : α → Nat} {p q : α → Prop}

theorem exists_of_bound {bound : Nat} (hsome : ∃ x, p x) (hbound : ∀ x, p x → line x < bound) :
    ∃ x, Latest line p x := by
  induction bound with
  | zero =>
      obtain ⟨x, hx⟩ := hsome
      exact absurd (hbound x hx) (Nat.not_lt_zero _)
  | succ bound ih =>
      by_cases hlast : ∃ x, p x ∧ line x = bound
      · obtain ⟨x, hx, rfl⟩ := hlast
        exact ⟨x, hx, fun y hy => Nat.le_of_lt_succ (hbound y hy)⟩
      · apply ih
        intro x hx
        have hne : line x ≠ bound := fun heq => hlast ⟨x, hx, heq⟩
        have hle := hbound x hx
        omega

theorem iff_eq_of_new {x : α} (hnew : ∀ y, q y ↔ p y ∨ y = x) (hlater : ∀ y, p y → line y < line x)
    (y : α) : Latest line q y ↔ y = x := by
  have hx : q x := (hnew x).mpr (.inr rfl)
  constructor
  · intro h
    rcases (hnew y).mp h.holds with hy | rfl
    · exact absurd (h.last x hx) (Nat.not_le_of_lt (hlater y hy))
    · rfl
  · rintro rfl
    refine ⟨hx, ?_⟩
    intro z hz
    rcases (hnew z).mp hz with hz | rfl
    · exact Nat.le_of_lt (hlater z hz)
    · exact Nat.le_refl _

theorem congr (h : ∀ y, q y ↔ p y) (x : α) : Latest line q x ↔ Latest line p x := by
  have heq : q = p := funext fun y => propext (h y)
  rw [heq]

end Latest

theorem Table.mem_keys_iff_of_latest {κ ν : Type} [DecidableEq κ] {t : Table κ ν} {line : ν → Nat}
    {p : κ → ν → Prop} {bound : Nat} (h : ∀ key v, t.get? key = some v ↔ Latest line (p key) v)
    {key : κ} (hbound : ∀ v, p key v → line v < bound) : key ∈ t.keys ↔ ∃ v, p key v := by
  rw [mem_keys_iff]
  constructor
  · rintro ⟨v, hv⟩
    exact ⟨v, ((h key v).mp hv).holds⟩
  · intro hsome
    obtain ⟨v, hv⟩ := Latest.exists_of_bound hsome hbound
    exact ⟨v, (h key v).mpr hv⟩

private theorem Table.get?_assign_latest {κ ν : Type} [DecidableEq κ] {t : Table κ ν}
    {line : ν → Nat} {p q : κ → ν → Prop} {key : κ} {x : ν}
    (h : ∀ k v, t.get? k = some v ↔ Latest line (p k) v)
    (hnew : ∀ k v, q k v ↔ p k v ∨ k = key ∧ v = x) (hlater : ∀ v, p key v → line v < line x)
    (k : κ) (v : ν) : (t.assign key x).get? k = some v ↔ Latest line (q k) v := by
  rw [get?_assign]
  by_cases hk : k = key
  · subst hk
    have hadded (y : ν) : q k y ↔ p k y ∨ y = x := by simp [hnew]
    rw [if_pos rfl, Option.some.injEq, Latest.iff_eq_of_new hadded hlater]
    exact eq_comm
  · have hsame (y : ν) : q k y ↔ p k y := by simp [hnew, hk]
    rw [if_neg hk, h, Latest.congr hsame]

/-- A label is declared again at a counter value. What it is told apart from is the nearest
declaration above. -/
structure Redeclared (declared : Text → Declaration → Prop) (counter : Nat) (d : Redeclaration) :
    Prop where
  here : declared d.label ⟨counter, d.line⟩
  previous : Latest Declaration.line (fun e => declared d.label e ∧ e.line < d.line) d.previous

/-- The first declaration of a label stands above all those of another. -/
def DeclaredBefore (declared : Text → Declaration → Prop) (first second : Text) : Prop :=
  ∃ d, declared first d ∧ ∀ e, declared second e → d.line < e.line

/-- The tables hold what some lines declare, and what they name that is no label. -/
structure Bindings.Records (b : Bindings) (declared : Text → Declaration → Prop)
    (misnamed : Text → Nat → Prop) : Prop where
  labels : ∀ label d, b.labels.get? label = some d ↔ Latest Declaration.line (declared label) d
  order : b.labels.keys.Pairwise (DeclaredBefore declared)
  invalid : ∀ word line, b.invalid.get? word = some line ↔ Latest id (misnamed word) line
  duplicates : ∀ counter d, b.duplicates.get? counter = some d ↔
    Latest Redeclaration.line (Redeclared declared counter) d

namespace Placement

def Declares (w : Placement) (label : Text) (d : Declaration) : Prop :=
  w.line.declares = true ∧ w.line.label = label ∧ d = ⟨w.address, w.line.index⟩

def Misnames (w : Placement) (word : Text) (line : Nat) : Prop :=
  w.line.hasLabel = true ∧ isLabel w.line.label = false ∧ w.line.label = word ∧ line = w.line.index

end Placement

theorem Line.declares_iff {l : Line} :
    l.declares = true ↔ l.hasLabel = true ∧ isLabel l.label = true := by
  rw [declares, Bool.and_eq_true]

section

variable {declared : Text → Declaration → Prop} {w : Placement}

private theorem redeclared_or_iff (hbelow : ∀ label d, declared label d → d.line < w.line.index)
    (counter : Nat) (d : Redeclaration) :
    Redeclared (fun label e => declared label e ∨ w.Declares label e) counter d ↔
      Redeclared declared counter d ∨ w.Declares d.label ⟨counter, d.line⟩ ∧
        Latest Declaration.line (declared d.label) d.previous := by
  have hline {e : Declaration} (he : w.Declares d.label e) : e.line = w.line.index := by
    rw [he.2.2]
  -- what stands above a line that is not the last one was declared before
  have habove (hle : d.line ≤ w.line.index) (e : Declaration) :
      ((declared d.label e ∨ w.Declares d.label e) ∧ e.line < d.line) ↔
        declared d.label e ∧ e.line < d.line := by
    constructor
    · rintro ⟨he | he, hlt⟩
      · exact ⟨he, hlt⟩
      · have hlast := hline he
        omega
    · exact fun he => ⟨.inl he.1, he.2⟩
  constructor
  · intro h
    have hprevious := h.previous
    rcases h.here with hhere | hhere
    · rw [Latest.congr (habove (Nat.le_of_lt (hbelow _ _ hhere)))] at hprevious
      exact .inl ⟨hhere, hprevious⟩
    · have hlast : d.line = w.line.index := hline hhere
      rw [Latest.congr (habove (Nat.le_of_eq hlast)), hlast] at hprevious
      refine .inr ⟨hhere, hprevious.holds.1, ?_⟩
      intro e he
      exact hprevious.last e ⟨he, hbelow _ _ he⟩
  · rintro (h | ⟨hhere, hprevious⟩)
    · refine ⟨.inl h.here, ?_⟩
      rw [Latest.congr (habove (Nat.le_of_lt (hbelow _ _ h.here)))]
      exact h.previous
    · have hlast : d.line = w.line.index := hline hhere
      refine ⟨.inr hhere, ?_⟩
      rw [Latest.congr (habove (Nat.le_of_eq hlast))]
      refine ⟨⟨hprevious.holds, ?_⟩, fun e he => hprevious.last e he.1⟩
      rw [hlast]
      exact hbelow _ _ hprevious.holds

theorem DeclaredBefore.or (hbelow : ∀ label d, declared label d → d.line < w.line.index)
    {first second : Text} (h : DeclaredBefore declared first second) :
    DeclaredBefore (fun label e => declared label e ∨ w.Declares label e) first second := by
  obtain ⟨d, hd, hbefore⟩ := h
  refine ⟨d, .inl hd, ?_⟩
  rintro e (he | he)
  · exact hbefore e he
  · rw [he.2.2]
    exact hbelow first d hd

end

namespace Bindings

variable {b : Bindings} {declared : Text → Declaration → Prop} {misnamed : Text → Nat → Prop}
  {w : Placement}

theorem Records.congr {declared' : Text → Declaration → Prop} {misnamed' : Text → Nat → Prop}
    (h : b.Records declared misnamed) (hdeclared : ∀ label d, declared label d ↔ declared' label d)
    (hmisnamed : ∀ word line, misnamed word line ↔ misnamed' word line) :
    b.Records declared' misnamed' := by
  have hd : declared = declared' := funext₂ fun label d => propext (hdeclared label d)
  have hm : misnamed = misnamed' := funext₂ fun word line => propext (hmisnamed word line)
  rw [← hd, ← hm]
  exact h

namespace Records

variable (h : b.Records declared misnamed)
  (hbelow : ∀ label d, declared label d → d.line < w.line.index)

include h hbelow

private theorem mem_keys_labels (label : Text) : label ∈ b.labels.keys ↔ ∃ d, declared label d :=
  Table.mem_keys_iff_of_latest h.labels (hbelow label)

private theorem labels_declare (hw : w.line.declares = true) (label : Text) (d : Declaration) :
    (b.declare w.line.label ⟨w.address, w.line.index⟩).labels.get? label = some d ↔
      Latest Declaration.line (fun e => declared label e ∨ w.Declares label e) d := by
  apply Table.get?_assign_latest h.labels
  · intro other e
    simp [Placement.Declares, hw, eq_comm]
  · exact hbelow w.line.label

private theorem order_declare :
    (b.declare w.line.label ⟨w.address, w.line.index⟩).labels.keys.Pairwise
      (DeclaredBefore fun label e => declared label e ∨ w.Declares label e) := by
  have hold : b.labels.keys.Pairwise
      (DeclaredBefore fun label e => declared label e ∨ w.Declares label e) :=
    h.order.imp fun hbefore => hbefore.or hbelow
  rw [declare, Table.keys_assign]
  by_cases hmem : w.line.label ∈ b.labels.keys
  · rw [if_pos hmem]
    exact hold
  · rw [if_neg hmem, List.pairwise_append]
    refine ⟨hold, List.pairwise_singleton _ _, ?_⟩
    intro first hfirst second hsecond
    rw [List.mem_singleton.mp hsecond]
    obtain ⟨d, hd⟩ := (h.mem_keys_labels hbelow first).mp hfirst
    refine ⟨d, .inl hd, ?_⟩
    rintro e (he | he)
    · exact absurd ((h.mem_keys_labels hbelow _).mpr ⟨e, he⟩) hmem
    · rw [he.2.2]
      exact hbelow first d hd

private theorem duplicates_declare (hw : w.line.declares = true) (counter : Nat)
    (d : Redeclaration) :
    (b.declare w.line.label ⟨w.address, w.line.index⟩).duplicates.get? counter = some d ↔
      Latest Redeclaration.line
        (Redeclared (fun label e => declared label e ∨ w.Declares label e) counter) d := by
  rw [Latest.congr (redeclared_or_iff hbelow counter)]
  simp only [declare]
  cases hprevious : b.labels.get? w.line.label with
  | none =>
      rw [h.duplicates]
      apply Iff.symm
      apply Latest.congr
      intro e
      rw [or_iff_left]
      rintro ⟨hhere, hlast⟩
      rw [← hhere.2.1, ← h.labels, hprevious] at hlast
      cases hlast
  | some previous =>
      apply Table.get?_assign_latest h.duplicates
      · intro k e
        obtain ⟨label, line, before⟩ := e
        apply or_congr_right
        rw [← h.labels]
        constructor
        · rintro ⟨⟨-, rfl, hhere⟩, hbefore⟩
          cases hhere
          rw [hprevious] at hbefore
          cases hbefore
          exact ⟨rfl, rfl⟩
        · rintro ⟨rfl, heq⟩
          cases heq
          exact ⟨⟨hw, rfl, rfl⟩, hprevious⟩
      · intro e he
        exact hbelow _ _ he.here

theorem enter (hbelow' : ∀ word line, misnamed word line → line < w.line.index) :
    (b.enter w).Records (fun label d => declared label d ∨ w.Declares label d)
      (fun word line => misnamed word line ∨ w.Misnames word line) := by
  by_cases hlabel : w.line.hasLabel = true
  · by_cases hvalid : isLabel w.line.label = true
    · have hw : w.line.declares = true := Line.declares_iff.mpr ⟨hlabel, hvalid⟩
      rw [enter_of_declares hw]
      refine ⟨h.labels_declare hbelow hw, h.order_declare hbelow, ?_,
        h.duplicates_declare hbelow hw⟩
      intro word line
      have hsame (n : Nat) : misnamed word n ∨ w.Misnames word n ↔ misnamed word n := by
        simp [Placement.Misnames, hvalid]
      rw [Latest.congr hsame]
      exact h.invalid word line
    · rw [Bool.not_eq_true] at hvalid
      have hw (label : Text) (d : Declaration) : ¬ w.Declares label d := by
        simp [Placement.Declares, Line.declares, hvalid]
      have henter : b.enter w =
          { b with invalid := b.invalid.assign w.line.label w.line.index } := by
        simp [Bindings.enter, hlabel, hvalid]
      rw [henter]
      have hold : b.Records (fun label d => declared label d ∨ w.Declares label d) misnamed :=
        h.congr (fun label d => (or_iff_left (hw label d)).symm) fun _ _ => Iff.rfl
      refine ⟨hold.labels, hold.order, ?_, hold.duplicates⟩
      apply Table.get?_assign_latest h.invalid
      · intro word line
        simp [Placement.Misnames, hlabel, hvalid, eq_comm]
      · exact hbelow' w.line.label
  · rw [Bool.not_eq_true] at hlabel
    have henter : b.enter w = b := by
      simp [Bindings.enter, hlabel]
    rw [henter]
    apply h.congr
    · intro label d
      simp [Placement.Declares, Line.declares, hlabel]
    · intro word line
      simp [Placement.Misnames, hlabel]

end Records

/-- Lines that are taken up in order are all recorded. -/
theorem Records.foldl {walked : List Placement}
    (hordered : walked.Pairwise (·.line.index < ·.line.index)) (h : b.Records declared misnamed)
    (hbelow : ∀ w ∈ walked, ∀ label d, declared label d → d.line < w.line.index)
    (hbelow' : ∀ w ∈ walked, ∀ word line, misnamed word line → line < w.line.index) :
    (walked.foldl Bindings.enter b).Records
      (fun label d => declared label d ∨ ∃ w ∈ walked, w.Declares label d)
      (fun word line => misnamed word line ∨ ∃ w ∈ walked, w.Misnames word line) := by
  induction walked generalizing b declared misnamed with
  | nil => simpa using h
  | cons w rest ih =>
      rw [List.pairwise_cons] at hordered
      rw [List.forall_mem_cons] at hbelow hbelow'
      have hfirst := h.enter hbelow.1 hbelow'.1
      rw [List.foldl_cons]
      apply Records.congr (ih hordered.2 hfirst ?_ ?_)
      · intro label d
        rw [List.exists_mem_cons_iff, or_assoc]
      · intro word line
        rw [List.exists_mem_cons_iff, or_assoc]
      · rintro v hv label d (hd | hd)
        · exact hbelow.2 v hv label d hd
        · rw [hd.2.2]
          exact hordered.1 v hv
      · rintro v hv word line (hline | hline)
        · exact hbelow'.2 v hv word line hline
        · rw [hline.2.2.2]
          exact hordered.1 v hv

end Bindings

/-- The label walk reaches the line of a declaration with its counter, and the line declares the
label. -/
structure Declares (lines : List Line) (label : Text) (d : Declaration) : Prop where
  reached : counterAt Line.labelStep 0 lines d.line = some d.address
  named : ∃ l, lines[d.line]? = some l ∧ l.isBlank = false ∧ l.hasLabel = true ∧ l.label = label
  valid : isLabel label = true

/-- The label walk reaches a line on which the word stands for a label and is none. -/
structure Misnames (lines : List Line) (word : Text) (line : Nat) : Prop where
  reached : ∃ counter, counterAt Line.labelStep 0 lines line = some counter
  named : ∃ l, lines[line]? = some l ∧ l.isBlank = false ∧ l.hasLabel = true ∧ l.label = word
  invalid : isLabel word = false
  notOrigin : word ≠ Mnemonic.spelling .ORG
  notEnd : word ≠ Mnemonic.spelling .END

private theorem Line.labelStep_eq_occupy_iff {l : Line} :
    l.labelStep = .occupy ↔ l.isBlank = false ∧ l.label ≠ Mnemonic.spelling .ORG ∧
      l.label ≠ Mnemonic.spelling .END := by
  have hspells (m : Mnemonic) : Mnemonic.ofWord? l.label = some m ↔ l.label = m.spelling := by
    constructor
    · exact fun h => (Mnemonic.spelling_of_ofWord? h).symm
    · intro h
      rw [h, Mnemonic.ofWord?_spelling]
  rw [ne_eq, ne_eq, ← hspells, ← hspells, labelStep]
  cases hblank : l.isBlank with
  | true => simp
  | false =>
      rw [if_neg Bool.false_ne_true]
      split <;> simp_all

private theorem not_isLabel_spelling (m : Mnemonic) : isLabel m.spelling = false := by
  cases m <;> decide

private theorem exists_declares_iff (text : Text) (label : Text) (d : Declaration) :
    (∃ w ∈ place Line.labelStep 0 (sourceLines text), w.Declares label d) ↔
      Declares (sourceLines text) label d := by
  constructor
  · rintro ⟨w, hw, hdeclares, rfl, rfl⟩
    rw [Line.declares_iff] at hdeclares
    have hl := getElem?_of_mem_sourceLines (mem_of_mem_place hw)
    obtain ⟨hreached, hstep⟩ := (mem_place_sourceLines_iff _ hl w.address).mp hw
    rw [Line.labelStep_eq_occupy_iff] at hstep
    exact ⟨hreached, ⟨w.line, hl, hstep.1, hdeclares.1, rfl⟩, hdeclares.2⟩
  · intro h
    obtain ⟨l, hl, hblank, hlabel, rfl⟩ := h.named
    refine ⟨⟨d.address, l⟩, ?_, Line.declares_iff.mpr ⟨hlabel, h.valid⟩, rfl, ?_⟩
    · rw [mem_place_sourceLines_iff _ hl]
      refine ⟨h.reached, Line.labelStep_eq_occupy_iff.mpr ⟨hblank, ?_, ?_⟩⟩
      · intro horigin
        have hvalid := h.valid
        rw [horigin, not_isLabel_spelling] at hvalid
        cases hvalid
      · intro hend
        have hvalid := h.valid
        rw [hend, not_isLabel_spelling] at hvalid
        cases hvalid
    · rw [getElem?_sourceLines hl]

private theorem exists_misnames_iff (text : Text) (word : Text) (line : Nat) :
    (∃ w ∈ place Line.labelStep 0 (sourceLines text), w.Misnames word line) ↔
      Misnames (sourceLines text) word line := by
  constructor
  · rintro ⟨w, hw, hlabel, hinvalid, rfl, rfl⟩
    have hl := getElem?_of_mem_sourceLines (mem_of_mem_place hw)
    obtain ⟨hreached, hstep⟩ := (mem_place_sourceLines_iff _ hl w.address).mp hw
    rw [Line.labelStep_eq_occupy_iff] at hstep
    exact ⟨⟨w.address, hreached⟩, ⟨w.line, hl, hstep.1, hlabel, rfl⟩, hinvalid, hstep.2.1,
      hstep.2.2⟩
  · intro h
    obtain ⟨counter, hreached⟩ := h.reached
    obtain ⟨l, hl, hblank, hlabel, rfl⟩ := h.named
    refine ⟨⟨counter, l⟩, ?_, hlabel, h.invalid, rfl, (getElem?_sourceLines hl).symm⟩
    rw [mem_place_sourceLines_iff _ hl, Line.labelStep_eq_occupy_iff]
    exact ⟨hreached, hblank, h.notOrigin, h.notEnd⟩

theorem records_bindings (text : Text) :
    (bindings (sourceLines text)).Records (Declares (sourceLines text))
      (Misnames (sourceLines text)) := by
  have hnothing : ({} : Bindings).Records (fun _ _ => False) (fun _ _ => False) := by
    refine ⟨?_, List.Pairwise.nil, ?_, ?_⟩
    · exact fun label d => iff_of_false nofun fun h => h.holds
    · exact fun word line => iff_of_false nofun fun h => h.holds
    · exact fun counter d => iff_of_false nofun fun h => h.holds.here
  have hwalk := hnothing.foldl (pairwise_index_place Line.labelStep text) (by simp) (by simp)
  apply hwalk.congr
  · intro label d
    rw [false_or, exists_declares_iff]
  · intro word line
    rw [false_or, exists_misnames_iff]

theorem lt_length_of_getElem? {lines : List Line} {line : Nat} {p : Line → Prop}
    (h : ∃ l, lines[line]? = some l ∧ p l) : line < lines.length := by
  obtain ⟨l, hl, -⟩ := h
  exact (List.getElem?_eq_some_iff.mp hl).1

/-- The label walk ends with its five tables. The labels are those that a line declares while the
walk goes on, in the order of their first declarations, and each has the line and the counter of its
last one: the three tables of labels agree. A word that is no label has the last line that uses it.
A counter value at which a label is declared again has the last such declaration, told apart from
the nearest one of the same label above. -/
theorem resolve_keeps_latest (text : Text) :
    let lines := sourceLines text
    ∃ r, resolve? lines = .ok r ∧
    (r.declarations.keys = r.symbols.keys ∧ r.unused.keys = r.symbols.keys ∧
      r.unused = r.declarations) ∧
    r.symbols.keys.Pairwise (DeclaredBefore (Declares lines)) ∧
    (∀ label, label ∈ r.symbols.keys ↔ ∃ d, Declares lines label d) ∧
    (∀ label ∈ r.symbols.keys, isLabel label = true) ∧
    (∀ label d, r.symbols.get? label = some d.address ∧ r.declarations.get? label = some d.line ↔
      Latest Declaration.line (Declares lines label) d) ∧
    (∀ word, word ∈ r.invalid.keys ↔ ∃ line, Misnames lines word line) ∧
    (∀ word line, r.invalid.get? word = some line ↔ Latest id (Misnames lines word) line) ∧
    (∀ counter, counter ∈ r.duplicates.keys ↔ ∃ d, Redeclared (Declares lines) counter d) ∧
    ∀ counter d, r.duplicates.get? counter = some d ↔
      Latest Redeclaration.line (Redeclared (Declares lines) counter) d := by
  intro lines
  have h : (bindings lines).Records (Declares lines) (Misnames lines) := records_bindings text
  have hbound : ∀ label d, Declares lines label d → d.line < lines.length :=
    fun label d hd => lt_length_of_getElem? hd.named
  have hlabels (label : Text) : label ∈ (bindings lines).labels.keys ↔
      ∃ d, Declares lines label d :=
    Table.mem_keys_iff_of_latest h.labels (hbound label)
  -- The walk assigns to the tables one by one; at its end they hold one set of bindings.
  refine ⟨(bindings lines).tables, resolve?_eq lines, ?_⟩
  rw [Bindings.keys_symbols_tables, Bindings.keys_declarations_tables, Bindings.keys_unused_tables]
  refine ⟨⟨rfl, rfl, Bindings.unused_tables _⟩, h.order, hlabels, ?_, ?_, ?_, h.invalid, ?_,
    h.duplicates⟩
  · intro label hlabel
    obtain ⟨d, hd⟩ := (hlabels label).mp hlabel
    exact hd.valid
  · intro label d
    rw [← h.labels, Bindings.get?_symbols_tables, Bindings.get?_declarations_tables]
    cases (bindings lines).labels.get? label with
    | none => simp
    | some e =>
        obtain ⟨address, line⟩ := e
        cases d
        simp
  · intro word
    apply Table.mem_keys_iff_of_latest h.invalid
    exact fun line hline => lt_length_of_getElem? hline.named
  · intro counter
    apply Table.mem_keys_iff_of_latest h.duplicates
    exact fun d hd => hbound _ _ hd.here

end TeachAsm
