import FastapiStarter.Lib.Table

/-!
# Rows that writes leave alone

The rows of a table that have a property, say those of one owner, stay as they are under a
write that is made elsewhere.  What the other rows become is not asked.

## Main definitions

* `Table.SameOn` — two tables with the same rows of a kind, in the same order.

## Main results

* `Table.sameOn_updateWhere`, `Table.sameOn_insert` — **writes made elsewhere.**
-/

namespace Relational

namespace Table

variable {K R : Type} {key : R → K} {t t' t'' : Table key}

/-- The tables have the same rows with a property. -/
def SameOn (P : R → Prop) [DecidablePred P] (t t' : Table key) : Prop :=
  t'.rows.filter (fun r => P r) = t.rows.filter fun r => P r

variable {P : R → Prop} [DecidablePred P]

theorem SameOn.refl (t : Table key) : t.SameOn P t := rfl

theorem SameOn.trans (h : t.SameOn P t') (h' : t'.SameOn P t'') : t.SameOn P t'' :=
  Eq.trans h' h

theorem SameOn.mem_iff (h : t.SameOn P t') {r : R} (hr : P r) : r ∈ t'.rows ↔ r ∈ t.rows := by
  have hboth : r ∈ t'.rows.filter (fun r => P r) ↔ r ∈ t.rows.filter fun r => P r := by rw [h]
  simpa [hr] using hboth

/-- An update of rows that have not the property, and do not get it. -/
theorem sameOn_updateWhere {p : R → Bool} {f : R → R} (hf : ∀ r, key (f r) = key r)
    (h : ∀ r ∈ t.rows, p r = true → ¬ P r ∧ ¬ P (f r)) : t.SameOn P (t.updateWhere p f hf) := by
  unfold SameOn
  rw [rows_updateWhere, List.filter_map]
  have hkeep : ∀ r ∈ t.rows, (decide (P (if p r then f r else r))) = decide (P r) := by
    intro r hr
    by_cases hp : p r = true
    · obtain ⟨hbefore, hafter⟩ := h r hr hp
      simp [hp, hbefore, hafter]
    · simp [hp]
  have hfilter : t.rows.filter ((fun r => decide (P r)) ∘ fun r => if p r then f r else r) =
      t.rows.filter fun r => P r := List.filter_congr hkeep
  rw [hfilter]
  refine (List.map_congr_left fun r hr => ?_).trans (List.map_id _)
  obtain ⟨hr, hP⟩ := List.mem_filter.mp hr
  have hnot : ¬ p r = true := fun hp => (h r hr hp).1 (of_decide_eq_true hP)
  simp [hnot]

/-- A new row that has not the property. -/
theorem sameOn_insert [DecidableEq K] {r : R} (h : t.insert r = some t') (hr : ¬ P r) :
    t.SameOn P t' := by
  unfold SameOn
  rw [rows_of_insert h, List.filter_append]
  simp [hr]

end Table

end Relational
