import Mathlib.Logic.Basic

/-!
# Fallible steps

What a step that may fail comes to: a value with one property, or an exception with
another.  The rules follow the ways in which steps are put together, one after the other
or as a fold over a list.

## Main definitions

* `Meets` — a value that satisfies `P`, or an exception that satisfies `E`.

## Main results

* `Meets.bind` — two steps, one after the other.
* `Meets.foldlM` — **a fold**: what each step does to the elements that are left.
-/

namespace Fallible

variable {ε α β : Type}

/-- The value satisfies `P`, or the exception satisfies `E`. -/
def Meets (x : Except ε α) (P : α → Prop) (E : ε → Prop) : Prop :=
  match x with
  | .ok a => P a
  | .error e => E e

variable {P : α → Prop} {Q : β → Prop} {E : ε → Prop} {x : Except ε α} {f : α → Except ε β}

@[simp] theorem meets_ok {a : α} : Meets (.ok a : Except ε α) P E ↔ P a := Iff.rfl

@[simp] theorem meets_error {e : ε} : Meets (.error e : Except ε α) P E ↔ E e := Iff.rfl

/-- Two steps, one after the other; the second is not made if the first fails. -/
theorem Meets.bind (h : Meets x P E) (hf : ∀ a, P a → Meets (f a) Q E) :
    Meets (x >>= f) Q E := by
  rcases x with e | a
  · exact h
  · exact hf a h

theorem Meets.imp {P' : α → Prop} (h : Meets x P E) (hP : ∀ a, P a → P' a) : Meets x P' E := by
  rcases x with e | a
  · exact h
  · exact hP a h

/-- **A fold of steps.**  The invariant speaks of the elements that are left. -/
theorem Meets.foldlM {σ : Type} {f : σ → α → Except ε σ} {E : ε → Prop}
    (Inv : List α → σ → Prop)
    (hf : ∀ a as s, Inv (a :: as) s → Meets (f s a) (Inv as) E) :
    ∀ (as : List α) (s : σ), Inv as s → Meets (as.foldlM f s) (Inv []) E := by
  intro as
  induction as with
  | nil => exact fun s h => h
  | cons a as ih =>
    intro s h
    rw [List.foldlM_cons]
    exact (hf a as s h).bind (ih ·)

end Fallible
