import TeachAsm.Memory.Load

/-!
# What the statement walk leaves

The walk writes cells, notes the writes that memory refuses and erases the labels it meets, all in
one pass. Each of the three is a fold of its own: the image is that of the writes in order, the
dropped writes are those past the end of memory, and the labels left are those that no reference
names.
-/

namespace TeachAsm

def Image.ofWrites (writes : List (Nat × Cell)) : Image :=
  writes.foldl (fun image w => (image.store? w.1 w.2).getD image) empty

/-- The labels of a resolution without those that the placed statements refer to. -/
def Resolution.unusedIn (r : Resolution) (placements : List Placement) : Table Text Nat :=
  placements.foldl
    (fun unused p => if p.line.isReference then unused.erase p.line.operandWord else unused)
    r.unused

/-- Memory refuses the writes past its end, and no others. -/
private theorem Image.store?_eq_none_iff (image : Image) (address : Nat) (c : Cell) :
    image.store? address c = none ↔ memorySize ≤ address := by
  rw [store?]
  split
  · next hinside => simpa using hinside.2
  · next houtside => simpa using houtside

namespace Memory

variable (symbols : Table Text Nat) (m : Memory)

private theorem image_store (address : Nat) (c : Cell) :
    (m.store address c).image = (m.image.store? address c).getD m.image := by
  rw [store]
  cases m.image.store? address c <;> rfl

private theorem unused_store (address : Nat) (c : Cell) :
    (m.store address c).unused = m.unused := by
  rw [store]
  cases m.image.store? address c <;> rfl

private theorem dropped_store (address : Nat) (c : Cell) :
    (m.store address c).dropped =
      m.dropped ++ [(address, c)].filter fun w => decide (memorySize ≤ w.1) := by
  rw [store]
  cases hstore : m.image.store? address c with
  | none =>
      have hpast : memorySize ≤ address := (m.image.store?_eq_none_iff address c).mp hstore
      simp [hpast]
  | some image =>
      have hinside : ¬ memorySize ≤ address := by
        rw [← m.image.store?_eq_none_iff address c, hstore]
        exact Option.some_ne_none image
      simp [hinside]

private theorem image_enter (p : Placement) :
    (m.enter symbols p).image =
      (m.image.store? p.address (p.line.cell symbols)).getD m.image := by
  rw [← image_store, enter]
  split <;> rfl

private theorem dropped_enter (p : Placement) :
    (m.enter symbols p).dropped =
      m.dropped ++
        [(p.address, p.line.cell symbols)].filter fun w => decide (memorySize ≤ w.1) := by
  rw [← dropped_store, enter]
  split <;> rfl

private theorem unused_enter (p : Placement) :
    (m.enter symbols p).unused =
      if p.line.isReference then m.unused.erase p.line.operandWord else m.unused := by
  rw [enter]
  split
  · simp only [unused_store]
  · exact m.unused_store _ _

private theorem image_foldl_enter (placements : List Placement) :
    (placements.foldl (enter symbols) m).image =
      (placements.map fun p => (p.address, p.line.cell symbols)).foldl
        (fun image w => (image.store? w.1 w.2).getD image) m.image := by
  induction placements generalizing m with
  | nil => rfl
  | cons p rest ih => rw [List.foldl_cons, ih, image_enter, List.map_cons, List.foldl_cons]

private theorem dropped_foldl_enter (placements : List Placement) :
    (placements.foldl (enter symbols) m).dropped =
      m.dropped ++ (placements.map fun p => (p.address, p.line.cell symbols)).filter
        fun w => decide (memorySize ≤ w.1) := by
  induction placements generalizing m with
  | nil => rw [List.foldl_nil, List.map_nil, List.filter_nil, List.append_nil]
  | cons p rest ih =>
      rw [List.foldl_cons, ih, dropped_enter, List.map_cons, List.append_assoc,
        ← List.filter_append, List.singleton_append]

private theorem unused_foldl_enter (placements : List Placement) :
    (placements.foldl (enter symbols) m).unused =
      placements.foldl
        (fun unused p => if p.line.isReference then unused.erase p.line.operandWord else unused)
        m.unused := by
  induction placements generalizing m with
  | nil => rfl
  | cons p rest ih => rw [List.foldl_cons, ih, unused_enter, List.foldl_cons]

end Memory

variable (lines : List Line) (r : Resolution)

theorem load_image :
    (load lines r).image =
      Image.ofWrites ((statements lines).map fun p => (p.address, p.line.cell r.symbols)) :=
  Memory.image_foldl_enter r.symbols { unused := r.unused } (statements lines)

theorem load_dropped :
    (load lines r).dropped =
      ((statements lines).map fun p => (p.address, p.line.cell r.symbols)).filter
        fun w => decide (memorySize ≤ w.1) :=
  Memory.dropped_foldl_enter r.symbols { unused := r.unused } (statements lines)

theorem load_unused : (load lines r).unused = r.unusedIn (statements lines) :=
  Memory.unused_foldl_enter r.symbols { unused := r.unused } (statements lines)

end TeachAsm
