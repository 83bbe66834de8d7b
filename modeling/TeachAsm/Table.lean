/-!
# Tables in insertion order

A table holds each key once. Assigning to a key that is present keeps its place; a key that was
erased and is assigned again goes to the end.
-/

namespace TeachAsm

structure Table (κ ν : Type) where
  entries : List (κ × ν)
  distinct : (entries.map Prod.fst).Nodup
deriving DecidableEq

namespace Table

variable {κ ν : Type} [DecidableEq κ]

def empty : Table κ ν := ⟨[], List.nodup_nil⟩

instance : Inhabited (Table κ ν) := ⟨empty⟩

def keys (t : Table κ ν) : List κ := t.entries.map Prod.fst

def values (t : Table κ ν) : List ν := t.entries.map Prod.snd

def size (t : Table κ ν) : Nat := t.entries.length

def find? (key : κ) : List (κ × ν) → Option ν
  | [] => none
  | (k, v) :: rest => if k = key then some v else find? key rest

def get? (t : Table κ ν) (key : κ) : Option ν := find? key t.entries

def contains (t : Table κ ν) (key : κ) : Bool := (t.get? key).isSome

/-- Replace the value of a key in its place, or append the pair. -/
def put (key : κ) (value : ν) : List (κ × ν) → List (κ × ν)
  | [] => [(key, value)]
  | (k, v) :: rest => if k = key then (key, value) :: rest else (k, v) :: put key value rest

private theorem keys_put (key : κ) (value : ν) (entries : List (κ × ν)) :
    (put key value entries).map Prod.fst =
      if key ∈ entries.map Prod.fst then entries.map Prod.fst
      else entries.map Prod.fst ++ [key] := by
  induction entries with
  | nil => simp [put]
  | cons e rest ih =>
    obtain ⟨k, v⟩ := e
    by_cases h : k = key
    · simp [put, h]
    · have h' : ¬ key = k := fun e => h e.symm
      by_cases hr : key ∈ rest.map Prod.fst
      · rw [if_pos hr] at ih
        simp only [put, h, if_false, List.map_cons, ih, List.mem_cons, hr, or_true, if_true]
      · rw [if_neg hr] at ih
        simp only [put, h, if_false, List.map_cons, ih, List.mem_cons, hr, h', or_self,
          List.cons_append]

def assign (t : Table κ ν) (key : κ) (value : ν) : Table κ ν where
  entries := put key value t.entries
  distinct := by
    rw [keys_put]
    split
    · exact t.distinct
    · next h =>
      exact List.nodup_append.mpr ⟨t.distinct, by simp, fun a ha b hb => by
        have : b = key := by simpa using hb
        exact fun e => h (this ▸ e ▸ ha)⟩

def erase (t : Table κ ν) (key : κ) : Table κ ν where
  entries := t.entries.filter (fun e => e.1 ≠ key)
  distinct := List.Nodup.sublist (List.filter_sublist.map Prod.fst) t.distinct

private theorem find?_put (key k : κ) (value : ν) (entries : List (κ × ν)) :
    find? k (put key value entries) = if k = key then some value else find? k entries := by
  induction entries with
  | nil => by_cases h : key = k <;> simp [put, find?, h, eq_comm]
  | cons e rest ih =>
    obtain ⟨k', v⟩ := e
    by_cases h : k' = key <;> by_cases hk : k' = k <;> simp_all [put, find?, eq_comm]

theorem mem_of_find? {key : κ} {value : ν} {entries : List (κ × ν)}
    (h : find? key entries = some value) : (key, value) ∈ entries := by
  induction entries with
  | nil => cases h
  | cons e rest ih =>
    rw [find?] at h
    split at h
    · next hkey =>
      cases h
      rw [← hkey]
      exact List.mem_cons_self
    · exact List.mem_cons_of_mem _ (ih h)

theorem mem_of_mem_put {key : κ} {value : ν} {entries : List (κ × ν)} {e : κ × ν}
    (h : e ∈ put key value entries) : e = (key, value) ∨ e ∈ entries := by
  induction entries with
  | nil => exact .inl (List.mem_singleton.mp h)
  | cons first rest ih =>
    rw [put] at h
    split at h
    · cases List.mem_cons.mp h with
      | inl h => exact .inl h
      | inr h => exact .inr (List.mem_cons_of_mem _ h)
    · cases List.mem_cons.mp h with
      | inl h => exact .inr (h ▸ List.mem_cons_self)
      | inr h => exact (ih h).imp_right (List.mem_cons_of_mem _)

theorem find?_of_mem {key : κ} {value : ν} {entries : List (κ × ν)}
    (distinct : (entries.map Prod.fst).Nodup) (h : (key, value) ∈ entries) :
    find? key entries = some value := by
  induction entries with
  | nil => cases h
  | cons e rest ih =>
    rw [List.map_cons, List.nodup_cons] at distinct
    rw [find?]
    cases List.mem_cons.mp h with
    | inl h => rw [← h, if_pos rfl]
    | inr h =>
      have hkey : key ∈ rest.map Prod.fst := List.mem_map_of_mem h
      have hne : e.1 ≠ key := by
        intro heq
        rw [heq] at distinct
        exact distinct.1 hkey
      rw [if_neg hne, ih distinct.2 h]

theorem mem_values_iff (t : Table κ ν) (value : ν) :
    value ∈ t.values ↔ ∃ key, t.get? key = some value := by
  constructor
  · intro h
    obtain ⟨⟨key, _⟩, hmem, rfl⟩ := List.mem_map.mp h
    exact ⟨key, find?_of_mem t.distinct hmem⟩
  · intro ⟨key, h⟩
    exact List.mem_map_of_mem (f := Prod.snd) (mem_of_find? h)

theorem mem_keys_iff (t : Table κ ν) (key : κ) :
    key ∈ t.keys ↔ ∃ value, t.get? key = some value := by
  constructor
  · intro h
    obtain ⟨⟨_, value⟩, hmem, rfl⟩ := List.mem_map.mp h
    exact ⟨value, find?_of_mem t.distinct hmem⟩
  · intro ⟨value, h⟩
    exact List.mem_map_of_mem (f := Prod.fst) (mem_of_find? h)

theorem filter_put {key : κ} {p : κ → Bool} (hp : p key = false) (value : ν)
    (entries : List (κ × ν)) :
    (put key value entries).filter (fun e => p e.1) = entries.filter (fun e => p e.1) := by
  induction entries with
  | nil => simp [put, hp]
  | cons e rest ih =>
    obtain ⟨k, v⟩ := e
    by_cases h : k = key
    · simp [put, h, hp]
    · simp only [put, h, if_false, List.filter_cons, ih]

private theorem find?_filter_ne (key k : κ) (entries : List (κ × ν)) :
    find? k (entries.filter (fun e => e.1 ≠ key)) = if k = key then none else find? k entries := by
  induction entries with
  | nil => simp [find?]
  | cons e rest ih =>
    obtain ⟨k', v⟩ := e
    by_cases h : k' = key <;> by_cases hk : k' = k <;> simp_all [find?]

@[simp] theorem get?_assign (t : Table κ ν) (key k : κ) (value : ν) :
    (t.assign key value).get? k = if k = key then some value else t.get? k :=
  find?_put key k value t.entries

theorem keys_assign (t : Table κ ν) (key : κ) (value : ν) :
    (t.assign key value).keys = if key ∈ t.keys then t.keys else t.keys ++ [key] :=
  keys_put key value t.entries

@[simp] theorem get?_erase (t : Table κ ν) (key k : κ) :
    (t.erase key).get? k = if k = key then none else t.get? k :=
  find?_filter_ne key k t.entries

def mapValues {μ : Type} (f : ν → μ) (t : Table κ ν) : Table κ μ where
  entries := t.entries.map (fun e => (e.1, f e.2))
  distinct := by simpa [List.map_map, Function.comp_def] using t.distinct

omit [DecidableEq κ] in
@[simp] theorem keys_mapValues {μ : Type} (f : ν → μ) (t : Table κ ν) :
    (t.mapValues f).keys = t.keys := by
  simp [keys, mapValues, List.map_map, Function.comp_def]

theorem find?_map {μ : Type} (f : ν → μ) (key : κ) (entries : List (κ × ν)) :
    find? key (entries.map fun e => (e.1, f e.2)) = (find? key entries).map f := by
  induction entries with
  | nil => rfl
  | cons e rest ih =>
    obtain ⟨k, v⟩ := e
    by_cases h : k = key <;> simp [find?, h, ih]

@[simp] theorem get?_mapValues {μ : Type} (f : ν → μ) (t : Table κ ν) (key : κ) :
    (t.mapValues f).get? key = (t.get? key).map f :=
  find?_map f key t.entries

omit [DecidableEq κ] in
private theorem eq_of_entries {t u : Table κ ν} (h : t.entries = u.entries) : t = u := by
  cases t
  cases u
  cases h
  rfl

omit [DecidableEq κ] in
theorem mapValues_mapValues {μ ξ : Type} (f : ν → μ) (g : μ → ξ) (t : Table κ ν) :
    (t.mapValues f).mapValues g = t.mapValues (fun v => g (f v)) :=
  eq_of_entries (by simp [mapValues, List.map_map, Function.comp_def])

omit [DecidableEq κ] in
theorem values_mapValues {μ : Type} (f : ν → μ) (t : Table κ ν) :
    (t.mapValues f).values = t.values.map f := by
  simp [values, mapValues, List.map_map, Function.comp_def]

private theorem map_put {μ : Type} (f : ν → μ) (key : κ) (value : ν) (entries : List (κ × ν)) :
    (put key value entries).map (fun e => (e.1, f e.2)) =
      put key (f value) (entries.map fun e => (e.1, f e.2)) := by
  induction entries with
  | nil => rfl
  | cons e rest ih =>
    obtain ⟨k, v⟩ := e
    by_cases h : k = key <;> simp [put, h, ih]

theorem mapValues_assign {μ : Type} (f : ν → μ) (t : Table κ ν) (key : κ) (value : ν) :
    (t.assign key value).mapValues f = (t.mapValues f).assign key (f value) :=
  eq_of_entries (map_put f key value t.entries)

theorem mapValues_erase {μ : Type} (f : ν → μ) (t : Table κ ν) (key : κ) :
    (t.erase key).mapValues f = (t.mapValues f).erase key :=
  eq_of_entries (by simp [mapValues, erase, List.filter_map, Function.comp_def])

end Table

end TeachAsm
