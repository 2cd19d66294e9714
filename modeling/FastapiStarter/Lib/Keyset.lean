import FastapiStarter.Lib.Table
import Mathlib.Data.List.Sort

/-!
# Keyset pagination

A table is read page by page, in the order of its keys: each request names the
last key it has seen, asks for the rows past it, and is told whether there are
more.  The table may change between the requests.

## Main definitions

* `Table.past` — the rows past a cursor, in key order.
* `Visit`, `Table.visit` — one request, and what it returns.
* `traverse` — the requests that follow the cursors, over the tables they find.

## Main results

* `pairwise_traverse` — the keys returned are strictly increasing.
* `mem_traverse` — a traversal that has ended has returned each key that was always there.
* `traverse_replicate` — over a table that stays, it ends and returns the table.
-/

namespace Relational

variable {K R : Type} [LinearOrder K] {key : R → K}

/-! ### The rows past a cursor -/

/-- The rows in key order. -/
def Table.sorted (t : Table key) : List R := t.rows.insertionSort fun r r' => key r ≤ key r'

/-- The rows past a cursor, in key order; without a cursor, all rows. -/
def Table.past (t : Table key) (cursor : Option K) : List R :=
  t.sorted.filter fun r => cursor.all (· < key r)

section past

variable {t : Table key} {cursor : Option K} {r : R}

theorem Table.mem_sorted : r ∈ t.sorted ↔ r ∈ t.rows :=
  List.mem_insertionSort _

/-- **The keys in key order are strictly increasing.** -/
theorem Table.pairwise_sorted (t : Table key) : t.sorted.Pairwise (key · < key ·) := by
  have hle : t.sorted.Pairwise (key · ≤ key ·) := List.pairwise_insertionSort _ _
  have hne : (t.sorted.map key).Nodup :=
    (((List.perm_insertionSort _ _).map key).nodup_iff).mpr t.nodup
  rw [List.Nodup, List.pairwise_map] at hne
  exact hle.imp₂ (fun _ _ hle hne => lt_of_le_of_ne hle hne) hne

theorem Table.mem_past : r ∈ t.past cursor ↔ r ∈ t.rows ∧ ∀ k ∈ cursor, k < key r := by
  rw [past, List.mem_filter, mem_sorted]
  cases cursor <;> simp

theorem Table.pairwise_past (t : Table key) (cursor : Option K) :
    (t.past cursor).Pairwise (key · < key ·) := t.pairwise_sorted.filter _

@[simp] theorem Table.past_none (t : Table key) : t.past none = t.sorted :=
  List.filter_eq_self.mpr fun _ _ => rfl

end past

/-! ### One request -/

/-- One request: the table it found, the cursor it named, what it returned. -/
structure Visit (key : R → K) where
  /-- The table. -/
  table : Table key
  /-- The cursor; the first request names none. -/
  cursor : Option K
  /-- The rows returned. -/
  rows : List R
  /-- Whether there are more rows. -/
  more : Bool

/-- The request for at most `size` rows past the cursor. -/
def Table.visit (t : Table key) (size : ℕ) (cursor : Option K) : Visit key :=
  ⟨t, cursor, (t.past cursor).take size, size < (t.past cursor).length⟩

namespace Visit

/-- The cursor of the next request. -/
def next (v : Visit key) : Option K := if v.more then v.rows.getLast?.map key else none

/-- How far the request has seen: up to the last row returned, or up to the cursor. -/
def bound (v : Visit key) : Option K := (v.rows.getLast?.map key).or v.cursor

end Visit

section visit

variable {t : Table key} {size : ℕ} {cursor : Option K} {r : R} {k : K}

theorem Table.mem_visit (h : r ∈ (t.visit size cursor).rows) :
    r ∈ t.rows ∧ ∀ k ∈ cursor, k < key r :=
  mem_past.mp (List.mem_of_mem_take h)

/-- The last row of a page separates it from the rows that follow. -/
theorem Table.past_of_getLast (h : ((t.past cursor).take size).getLast? = some r) :
    (∀ r' ∈ (t.past cursor).take size, key r' ≤ key r) ∧
      ∀ r' ∈ (t.past cursor).drop size, key r < key r' := by
  have hsorted := t.pairwise_past cursor
  rw [← List.take_append_drop size (t.past cursor), List.pairwise_append] at hsorted
  obtain ⟨htake, -, hsep⟩ := hsorted
  have hmem : r ∈ (t.past cursor).take size := List.mem_of_getLast? h
  refine ⟨fun r' hr' => ?_, fun r' hr' => hsep r hmem r' hr'⟩
  obtain ⟨ys, hys⟩ := List.getLast?_eq_some_iff.mp h
  rw [hys] at htake hr'
  rw [List.pairwise_append] at htake
  rcases List.mem_append.mp hr' with hin | hlast
  · exact (htake.2.2 r' hin r (by simp)).le
  · rw [List.mem_singleton.mp hlast]

/-- A page is empty only when no row is past the cursor. -/
theorem Table.past_eq_nil (hsize : 0 < size) (h : ((t.past cursor).take size).getLast? = none) :
    t.past cursor = [] := by
  rcases List.take_eq_nil_iff.mp (List.getLast?_eq_none_iff.mp h) with hzero | hnil
  · omega
  · exact hnil

/-- **There is no next cursor exactly when no row is past what was seen.** -/
theorem Table.next_visit (hsize : 0 < size) :
    (t.visit size cursor).next = none ↔
      ∀ r ∈ t.rows, ∃ k ∈ (t.visit size cursor).bound, key r ≤ k := by
  have hsplit : ∀ r, r ∈ t.past cursor ↔
      r ∈ (t.past cursor).take size ∨ r ∈ (t.past cursor).drop size := by
    intro r
    rw [← List.mem_append, List.take_append_drop]
  have hold : ∀ r ∈ t.rows, r ∉ t.past cursor → ∃ k ∈ cursor, key r ≤ k := by
    intro r hr hnot
    simpa [mem_past, hr] using hnot
  rcases hlast : ((t.past cursor).take size).getLast? with _ | l
  · -- an empty page
    have hnil := past_eq_nil hsize hlast
    have hbound : (t.visit size cursor).bound = cursor := by
      simp [visit, Visit.bound, hlast]
    rw [hbound]
    refine iff_of_true ?_ fun r hr => hold r hr (by simp [hnil])
    simp [visit, Visit.next, hnil]
  · -- a page whose last row is `l`
    obtain ⟨hle, hlt⟩ := past_of_getLast hlast
    have hbound : (t.visit size cursor).bound = some (key l) := by
      simp [visit, Visit.bound, hlast]
    have hl : ∀ k ∈ cursor, k < key l := (mem_visit (List.mem_of_getLast? hlast)).2
    rw [hbound]
    by_cases hmore : size < (t.past cursor).length
    · -- the row after the page
      refine iff_of_false (by simp [visit, Visit.next, hmore, hlast]) fun h => ?_
      have hdrop : (t.past cursor)[size] ∈ (t.past cursor).drop size := by
        rw [List.drop_eq_getElem_cons hmore]
        exact List.mem_cons_self
      obtain ⟨k, hk, hkey⟩ := h _ (mem_past.mp (List.getElem_mem hmore)).1
      obtain rfl : key l = k := Option.some.inj hk
      exact absurd (hlt _ hdrop) hkey.not_gt
    · refine iff_of_true (by simp [visit, Visit.next, hmore]) fun r hr => ⟨key l, rfl, ?_⟩
      have hnone : (t.past cursor).drop size = [] := List.drop_eq_nil_of_le (not_lt.mp hmore)
      by_cases hpast : r ∈ t.past cursor
      · rcases (hsplit r).mp hpast with htake | hdrop
        · exact hle r htake
        · simp [hnone] at hdrop
      · obtain ⟨k, hk, hkey⟩ := hold r hr hpast
        exact hkey.trans (hl k hk).le

/-- What lies past the cursor and was seen, was returned. -/
theorem Table.mem_visit_of_le (hr : r ∈ t.rows) (hcursor : ∀ c ∈ cursor, c < key r)
    (hk : k ∈ (t.visit size cursor).bound) (hle : key r ≤ k) : r ∈ (t.visit size cursor).rows := by
  have hpast := mem_past.mpr ⟨hr, hcursor⟩
  rcases hlast : ((t.past cursor).take size).getLast? with _ | l
  · have hkc : k ∈ cursor := by simpa [visit, Visit.bound, hlast] using hk
    exact absurd (hcursor k hkc) hle.not_gt
  · obtain rfl : key l = k := by simpa [visit, Visit.bound, hlast] using hk
    rw [← List.take_append_drop size (t.past cursor), List.mem_append] at hpast
    refine hpast.resolve_right fun hdrop => ?_
    exact absurd ((past_of_getLast hlast).2 r hdrop) hle.not_gt

omit [LinearOrder K] in
/-- The next cursor is as far as the request has seen. -/
theorem Visit.mem_bound_of_next {v : Visit key} (hnext : v.next = some k) : k ∈ v.bound := by
  unfold Visit.next at hnext
  split at hnext
  · rw [bound, hnext]
    rfl
  · cases hnext

end visit

/-! ### Following the cursors -/

/-- The requests that follow the cursors, over the tables they find. -/
def traverse (size : ℕ) : Option K → List (Table key) → List (Visit key)
  | _, [] => []
  | cursor, t :: ts =>
    t.visit size cursor :: match (t.visit size cursor).next with
      | none => []
      | some k => traverse size (some k) ts

section traverse

variable {size : ℕ} {cursor : Option K} {t : Table key} {ts : List (Table key)} {k : K}

theorem traverse_of_last (h : (t.visit size cursor).next = none) :
    traverse size cursor (t :: ts) = [t.visit size cursor] := by
  rw [traverse, h]

theorem traverse_of_next (h : (t.visit size cursor).next = some k) :
    traverse size cursor (t :: ts) = t.visit size cursor :: traverse size (some k) ts := by
  rw [traverse, h]

/-- Every request of a traversal is a visit of one of the tables. -/
theorem exists_of_mem_traverse {v : Visit key} (h : v ∈ traverse size cursor ts) :
    ∃ t ∈ ts, ∃ cursor', v = t.visit size cursor' := by
  induction ts generalizing cursor with
  | nil => cases h
  | cons t ts ih =>
    rcases hnext : (t.visit size cursor).next with _ | k
    · rw [traverse_of_last hnext, List.mem_singleton] at h
      exact ⟨t, List.mem_cons_self, cursor, h⟩
    · rw [traverse_of_next hnext, List.mem_cons] at h
      rcases h with rfl | h
      · exact ⟨t, List.mem_cons_self, cursor, rfl⟩
      · obtain ⟨t', ht', hv⟩ := ih h
        exact ⟨t', List.mem_cons_of_mem _ ht', hv⟩

/-- The rows of a page come before the next cursor. -/
theorem Table.le_of_next (hnext : (t.visit size cursor).next = some k) :
    (∀ c ∈ cursor, c < k) ∧ ∀ r ∈ (t.visit size cursor).rows, key r ≤ k := by
  unfold Visit.next at hnext
  split at hnext
  · obtain ⟨l, hlast, rfl⟩ := Option.map_eq_some_iff.mp hnext
    exact ⟨(mem_visit (List.mem_of_getLast? hlast)).2, (past_of_getLast hlast).1⟩
  · cases hnext

/-- **The keys returned are strictly increasing**, and lie past the cursor. -/
theorem pairwise_traverse (size : ℕ) (cursor : Option K) (ts : List (Table key)) :
    ((traverse size cursor ts).flatMap (·.rows)).Pairwise (key · < key ·) ∧
      ∀ r ∈ (traverse size cursor ts).flatMap (·.rows), ∀ k ∈ cursor, k < key r := by
  induction ts generalizing cursor with
  | nil => exact ⟨.nil, by simp [traverse]⟩
  | cons t ts ih =>
    have hpage : (t.visit size cursor).rows.Pairwise (key · < key ·) :=
      (t.pairwise_past cursor).sublist (List.take_sublist _ _)
    have hpast : ∀ r ∈ (t.visit size cursor).rows, ∀ k ∈ cursor, k < key r :=
      fun r hr => (Table.mem_visit hr).2
    rcases hnext : (t.visit size cursor).next with _ | k
    · rw [traverse_of_last hnext, List.flatMap_singleton]
      exact ⟨hpage, hpast⟩
    · obtain ⟨hrest, hafter⟩ := ih (some k)
      obtain ⟨hcursor, hle⟩ := Table.le_of_next hnext
      rw [traverse_of_next hnext, List.flatMap_cons]
      constructor
      · refine List.pairwise_append.mpr ⟨hpage, hrest, fun r hr r' hr' => ?_⟩
        exact (hle r hr).trans_lt (hafter r' hr' k rfl)
      · intro r hr c hc
        rcases List.mem_append.mp hr with hr | hr
        · exact hpast r hr c hc
        · exact (hcursor c hc).trans (hafter r hr k rfl)

/-- **A traversal that has ended has returned each key that was always there.** -/
theorem mem_traverse (hsize : 0 < size) {x : K} (hcursor : ∀ c ∈ cursor, c < x)
    (hend : ∃ v ∈ traverse size cursor ts, v.next = none)
    (hthere : ∀ v ∈ traverse size cursor ts, ∃ r ∈ v.table.rows, key r = x) :
    ∃ r ∈ (traverse size cursor ts).flatMap (·.rows), key r = x := by
  induction ts generalizing cursor with
  | nil =>
    obtain ⟨v, hv, -⟩ := hend
    cases hv
  | cons t ts ih =>
    rcases hnext : (t.visit size cursor).next with _ | k
    · rw [traverse_of_last hnext] at hthere ⊢
      obtain ⟨r, hr, rfl⟩ := hthere _ List.mem_cons_self
      -- the last request has seen all rows
      obtain ⟨k, hk, hle⟩ := (Table.next_visit hsize).mp hnext r hr
      rw [List.flatMap_singleton]
      exact ⟨r, Table.mem_visit_of_le hr hcursor hk hle, rfl⟩
    · rw [traverse_of_next hnext] at hthere hend ⊢
      rw [List.flatMap_cons]
      by_cases hx : x ≤ k
      · obtain ⟨r, hr, rfl⟩ := hthere _ List.mem_cons_self
        have hbound := Visit.mem_bound_of_next hnext
        exact ⟨r, List.mem_append_left _ (Table.mem_visit_of_le hr hcursor hbound hx), rfl⟩
      · obtain ⟨v, hv, hvnext⟩ := hend
        have hrest : v ∈ traverse size (some k) ts := by
          rcases List.mem_cons.mp hv with rfl | hv
          · rw [hnext] at hvnext
            cases hvnext
          · exact hv
        have hkx : ∀ c ∈ some k, c < x := by
          rintro c ⟨⟩
          exact not_le.mp hx
        obtain ⟨r, hr, hkey⟩ := ih hkx ⟨v, hrest, hvnext⟩ fun v hv =>
          hthere v (List.mem_cons_of_mem _ hv)
        exact ⟨r, List.mem_append_right _ hr, hkey⟩

/-- The next request finds what this one has left. -/
theorem Table.past_next (hnext : (t.visit size cursor).next = some k) :
    t.past (some k) = (t.past cursor).drop size ∧ size < (t.past cursor).length := by
  have hmore : size < (t.past cursor).length := by
    by_contra hno
    simp [visit, Visit.next, hno] at hnext
  refine ⟨?_, hmore⟩
  simp only [visit, Visit.next, hmore, decide_true, if_true] at hnext
  obtain ⟨l, hlast, rfl⟩ := Option.map_eq_some_iff.mp hnext
  have hl := (mem_visit (List.mem_of_getLast? hlast)).2
  obtain ⟨hle, hlt⟩ := past_of_getLast hlast
  have hfilter : t.past (some (key l)) = (t.past cursor).filter fun r => key l < key r := by
    rw [past, past, List.filter_filter]
    refine List.filter_congr fun r _ => ?_
    rw [Bool.eq_iff_iff]
    simp only [Option.all_some, decide_eq_true_eq, Bool.and_eq_true]
    refine ⟨fun hr => ⟨hr, ?_⟩, And.left⟩
    cases cursor with
    | none => rfl
    | some c => exact decide_eq_true ((hl c rfl).trans hr)
  rw [hfilter]
  conv_lhs => rw [← List.take_append_drop size (t.past cursor)]
  rw [List.filter_append, List.filter_eq_nil_iff.mpr, List.filter_eq_self.mpr, List.nil_append]
  · exact fun r hr => decide_eq_true (hlt r hr)
  · intro r hr
    simpa using hle r hr

/-- **Over a table that stays, a traversal ends and returns what is past the cursor.** -/
theorem traverse_replicate (hsize : 0 < size) {n : ℕ} (hn : (t.past cursor).length < n) :
    (∃ v ∈ traverse size cursor (List.replicate n t), v.next = none) ∧
      (traverse size cursor (List.replicate n t)).flatMap (·.rows) = t.past cursor := by
  induction n generalizing cursor with
  | zero => omega
  | succ n ih =>
    rw [List.replicate_succ]
    rcases hnext : (t.visit size cursor).next with _ | k
    · rw [traverse_of_last hnext, List.flatMap_singleton]
      refine ⟨⟨_, List.mem_cons_self, hnext⟩, ?_⟩
      refine List.take_of_length_le (not_lt.mp fun hmore => ?_)
      have hlast : (t.visit size cursor).rows.getLast? = none := by
        simpa [Table.visit, Visit.next, hmore] using hnext
      simp [Table.past_eq_nil hsize hlast] at hmore
    · obtain ⟨hpast, hmore⟩ := Table.past_next hnext
      have hlength : (t.past (some k)).length < n := by
        rw [hpast, List.length_drop]
        omega
      obtain ⟨⟨v, hv, hvnext⟩, hrows⟩ := ih hlength
      rw [traverse_of_next hnext, List.flatMap_cons, hrows, hpast]
      exact ⟨⟨v, List.mem_cons_of_mem _ hv, hvnext⟩, List.take_append_drop _ _⟩

end traverse

end Relational
