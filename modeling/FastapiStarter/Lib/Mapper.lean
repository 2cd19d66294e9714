import Mathlib.Logic.Relation

/-!
# Data mappers

A mapper translates between aggregates and rows: it builds an aggregate from a row, a
row from an aggregate, and copies an aggregate onto a row that was loaded before.
The copy lists fields one by one, so it can miss one; it misses none that matters
when whatever the methods of the aggregate change is copied.

## Main definitions

* `Mapper` — the three translations.
* `Mapper.Inserts`, `Mapper.Updates` — what is stored loads again.

## Main results

* `Mapper.updates_of_frame` — an update path is complete if the methods leave alone
  what it does not copy.
-/

namespace Persistence

open Relation

/-- The translations between the aggregates `D` and the rows `M`. -/
structure Mapper (D M ε : Type) where
  /-- The aggregate that a row holds. -/
  toDomain : M → Except ε D
  /-- A new row. -/
  toModel : D → M
  /-- Copies an aggregate onto a row. -/
  applyToModel : D → M → M

variable {D M ε : Type} (μ : Mapper D M ε)

/-- **An aggregate that was inserted loads again**, as far as it is stored. -/
def Mapper.Inserts (stored : D → D) (driver : M → M) : Prop :=
  ∀ x, μ.toDomain (driver (μ.toModel x)) = .ok (stored x)

/-- **An aggregate that was loaded and changed loads again** after it was copied onto
its row.  `changes` is what one method may do. -/
def Mapper.Updates (changes : D → D → Prop) (driver : M → M) : Prop :=
  ∀ row x x', μ.toDomain row = .ok x → ReflTransGen changes x x' →
    μ.toDomain (driver (μ.applyToModel x' row)) = .ok x'

variable {μ}

/-- **An update path is complete** if every method leaves alone what it does not copy:
the aggregates that share it are in `frame`. -/
theorem Mapper.updates_of_frame {changes : D → D → Prop} {driver : M → M} (frame : D → D → Prop)
    (hrefl : ∀ x, frame x x) (htrans : ∀ x y z, frame x y → frame y z → frame x z)
    (hchanges : ∀ x x', changes x x' → frame x x')
    (hcopied : ∀ row x x', μ.toDomain row = .ok x → frame x x' →
      μ.toDomain (driver (μ.applyToModel x' row)) = .ok x') :
    μ.Updates changes driver := by
  intro row x x' hrow hpath
  refine hcopied row x x' hrow ?_
  induction hpath with
  | refl => exact hrefl x
  | tail _ hstep ih => exact htrans _ _ _ ih (hchanges _ _ hstep)

end Persistence
