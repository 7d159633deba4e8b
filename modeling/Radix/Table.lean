/-!
# Table — values under names

A table keeps at most one value under each name, in the order in which the names were first bound.
`get?` is its view: after `insert` the name has the new value and every other name what it had
before, and likewise for `erase`.
-/

namespace Radix

/-- Values under names. -/
structure Table (α : Type) where
  entries : List (String × α)

namespace Table

variable {α : Type}

/-- The table without names. -/
def empty : Table α := ⟨[]⟩

instance : EmptyCollection (Table α) := ⟨empty⟩

instance : Inhabited (Table α) := ⟨empty⟩

/-- The value under a name, if there is one. -/
def get? (t : Table α) (name : String) : Option α := t.entries.lookup name

/-- The entries with the value under `name` replaced, or added at the end. -/
def insertEntry (name : String) (value : α) : List (String × α) → List (String × α)
  | [] => [(name, value)]
  | e :: es => if e.1 = name then (name, value) :: es else e :: insertEntry name value es

/-- The table with the value under the name replaced or added. -/
def insert (t : Table α) (name : String) (value : α) : Table α :=
  ⟨insertEntry name value t.entries⟩

/-- The table without the name. -/
def erase (t : Table α) (name : String) : Table α := ⟨t.entries.filter (·.1 ≠ name)⟩

/-- The names, in the order in which they were first bound. -/
def names (t : Table α) : List String := t.entries.map (·.1)

/-- The values, in the order of their names. -/
def values (t : Table α) : List α := t.entries.map (·.2)

/-- The table that keeps the last value given for each name. -/
def ofList (es : List (String × α)) : Table α :=
  es.foldl (fun t e => t.insert e.1 e.2) empty

/-! ## The view after each operation -/

@[simp] theorem get?_empty (name : String) : (empty : Table α).get? name = none := rfl

theorem lookup_insertEntry (name k : String) (value : α) (es : List (String × α)) :
    (insertEntry name value es).lookup k = if k = name then some value else es.lookup k := by
  induction es with
  | nil =>
    by_cases h : k = name
    · simp [insertEntry, h]
    · have h' : (k == name) = false := by simpa using h
      simp [insertEntry, List.lookup_cons, h, h']
  | cons e es ih =>
    obtain ⟨m, v⟩ := e
    by_cases hm : m = name
    · subst hm
      by_cases h : k = m
      · simp [insertEntry, h]
      · have h' : (k == m) = false := by simpa using h
        simp [insertEntry, List.lookup_cons, h, h']
    · by_cases h : k = m
      · subst h
        simp [insertEntry, hm]
      · have h' : (k == m) = false := by simpa using h
        simp [insertEntry, hm, List.lookup_cons, h', ih]

/-- **What a name holds after a binding.** -/
theorem get?_insert (t : Table α) (name k : String) (value : α) :
    (t.insert name value).get? k = if k = name then some value else t.get? k :=
  lookup_insertEntry name k value t.entries

@[simp] theorem get?_insert_self (t : Table α) (name : String) (value : α) :
    (t.insert name value).get? name = some value := by
  simp [get?_insert]

theorem get?_insert_of_ne (t : Table α) {name k : String} (h : k ≠ name) (value : α) :
    (t.insert name value).get? k = t.get? k := by
  simp [get?_insert, h]

/-- What a name holds after another, or it itself, was removed. -/
theorem get?_erase (t : Table α) (name k : String) :
    (t.erase name).get? k = if k = name then none else t.get? k := by
  unfold get? erase
  induction t.entries with
  | nil => simp
  | cons e es ih =>
    obtain ⟨m, v⟩ := e
    by_cases hm : m = name
    · subst hm
      by_cases h : k = m
      · simpa [h] using ih
      · have h' : (k == m) = false := by simpa using h
        simpa [h, List.lookup_cons, h'] using ih
    · by_cases h : k = m
      · subst h
        simp [hm]
      · have h' : (k == m) = false := by simpa using h
        simpa [hm, List.lookup_cons, h'] using ih

/-- What a name holds is one of the values. -/
theorem mem_values_of_get? {t : Table α} {name : String} {v : α} (h : t.get? name = some v) :
    v ∈ t.values := by
  obtain ⟨es⟩ := t
  unfold get? at h
  unfold values
  induction es with
  | nil => exact absurd h (by simp)
  | cons e es ih =>
    obtain ⟨k, w⟩ := e
    rw [List.lookup_cons] at h
    split at h
    · simp [Option.some.inj h]
    · exact List.mem_cons_of_mem _ (ih h)

theorem get?_foldl_insert {es : List (String × α)} {t : Table α} {k : String} {v : α}
    (h : (es.foldl (fun t e => t.insert e.1 e.2) t).get? k = some v) :
    (k, v) ∈ es ∨ t.get? k = some v := by
  induction es generalizing t with
  | nil => exact .inr h
  | cons e es ih =>
    rcases ih h with hm | ht
    · exact .inl (List.mem_cons_of_mem _ hm)
    · rw [get?_insert] at ht
      split at ht
      · next hk => exact .inl (by simp [hk, ← Option.some.inj ht])
      · exact .inr ht

/-- A table made of a list holds nothing else. -/
theorem mem_of_get?_ofList {es : List (String × α)} {k : String} {v : α}
    (h : (ofList es).get? k = some v) : (k, v) ∈ es := by
  rcases get?_foldl_insert h with hm | ht
  · exact hm
  · exact absurd ht (by simp)

end Table

end Radix
