import TeachAsm.Symbols

/-!
# Bindings of labels

The label walk assigns to five tables, and looks up a label that is declared again in two of them.
The tables never part: at every step of the walk they hold one declaration for each label, so what
has an address has a line as well, and the walk does not fail.
-/

namespace TeachAsm

/-- What the five tables hold, with one declaration for each label. -/
structure Bindings where
  labels : Table Text Declaration := .empty
  duplicates : Table Nat Redeclaration := .empty
  invalid : Table Text Nat := .empty

namespace Bindings

def declare (b : Bindings) (label : Text) (d : Declaration) : Bindings :=
  { b with
    labels := b.labels.assign label d
    duplicates := match b.labels.get? label with
      | none => b.duplicates
      | some previous => b.duplicates.assign d.address ⟨label, d.line, previous⟩ }

def enter (b : Bindings) (p : Placement) : Bindings :=
  let l := p.line
  if !l.hasLabel then b
  else if isLabel l.label then b.declare l.label ⟨p.address, l.index⟩
  else { b with invalid := b.invalid.assign l.label l.index }

def tables (b : Bindings) : Resolution where
  symbols := b.labels.mapValues Declaration.address
  duplicates := b.duplicates
  unused := b.labels.mapValues Declaration.line
  invalid := b.invalid
  declarations := b.labels.mapValues Declaration.line

@[simp] theorem get?_symbols_tables (b : Bindings) (label : Text) :
    b.tables.symbols.get? label = (b.labels.get? label).map Declaration.address :=
  Table.get?_mapValues _ _ _

@[simp] theorem get?_declarations_tables (b : Bindings) (label : Text) :
    b.tables.declarations.get? label = (b.labels.get? label).map Declaration.line :=
  Table.get?_mapValues _ _ _

@[simp] theorem keys_symbols_tables (b : Bindings) : b.tables.symbols.keys = b.labels.keys :=
  Table.keys_mapValues _ _

@[simp] theorem keys_declarations_tables (b : Bindings) :
    b.tables.declarations.keys = b.labels.keys :=
  Table.keys_mapValues _ _

@[simp] theorem keys_unused_tables (b : Bindings) : b.tables.unused.keys = b.labels.keys :=
  Table.keys_mapValues _ _

theorem unused_tables (b : Bindings) : b.tables.unused = b.tables.declarations := rfl

private theorem previous?_tables (b : Bindings) (label : Text) :
    b.tables.previous? label = .ok (b.labels.get? label) := by
  rw [Resolution.previous?, get?_symbols_tables, get?_declarations_tables]
  cases b.labels.get? label <;> rfl

private theorem declare_tables (b : Bindings) (label : Text) (d : Declaration) :
    b.tables.declare label d = .ok (b.declare label d).tables := by
  rw [Resolution.declare, previous?_tables, Except.map]
  cases hprevious : b.labels.get? label with
  | none => simp only [tables, declare, hprevious, Table.mapValues_assign]
  | some previous => simp only [tables, declare, hprevious, Table.mapValues_assign]

private theorem enter_tables (b : Bindings) (p : Placement) :
    b.tables.enter p = .ok (b.enter p).tables := by
  rw [Resolution.enter, enter]
  by_cases hlabel : p.line.hasLabel = true
  · by_cases hvalid : isLabel p.line.label = true
    · simp only [hlabel, hvalid, Bool.not_true, Bool.false_eq_true, if_false, if_true]
      exact b.declare_tables _ _
    · simp only [hlabel, hvalid, Bool.not_true, Bool.false_eq_true, if_false]
      rfl
  · simp only [hlabel, Bool.not_false, if_true]

theorem foldlM_enter_tables (b : Bindings) (placements : List Placement) :
    placements.foldlM Resolution.enter b.tables = .ok (placements.foldl enter b).tables := by
  induction placements generalizing b with
  | nil => rfl
  | cons p rest ih =>
      rw [List.foldlM_cons, enter_tables]
      exact ih (b.enter p)

theorem exists_placement_of_labels {placements : List Placement} {b : Bindings} {label : Text}
    {d : Declaration} (h : (placements.foldl enter b).labels.get? label = some d) :
    b.labels.get? label = some d ∨
      ∃ p ∈ placements, p.line.label = label ∧ p.address = d.address ∧ p.line.index = d.line := by
  induction placements generalizing b with
  | nil => exact .inl h
  | cons p rest ih =>
      rcases ih h with hentered | ⟨q, hq, hfound⟩
      · simp only [enter] at hentered
        split at hentered
        · exact .inl hentered
        · split at hentered
          · simp only [declare, Table.get?_assign] at hentered
            split at hentered
            · next hlabel =>
                cases hentered
                exact .inr ⟨p, List.mem_cons_self, hlabel.symm, rfl, rfl⟩
            · exact .inl hentered
          · exact .inl hentered
      · exact .inr ⟨q, List.mem_cons_of_mem _ hq, hfound⟩

end Bindings

def bindings (lines : List Line) : Bindings :=
  (place Line.labelStep 0 lines).foldl Bindings.enter {}

theorem resolve?_eq (lines : List Line) : resolve? lines = .ok (bindings lines).tables :=
  Bindings.foldlM_enter_tables {} _

theorem resolve_eq (lines : List Line) : resolve lines = (bindings lines).tables := by
  rw [resolve, resolve?_eq]
  rfl

theorem keys_declarations_resolve (lines : List Line) :
    (resolve lines).declarations.keys = (resolve lines).symbols.keys := by
  rw [resolve_eq, Bindings.keys_declarations_tables, Bindings.keys_symbols_tables]

theorem unused_resolve (lines : List Line) :
    (resolve lines).unused = (resolve lines).declarations := by
  rw [resolve_eq, Bindings.unused_tables]

end TeachAsm
