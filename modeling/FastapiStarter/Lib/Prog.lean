import Mathlib.Logic.Function.Basic

/-!
# Interaction programs

A program over an interface is a tree: it ends with a value, ends by raising an
exception, or calls one operation of the interface and goes on with the answer.
The tree says nothing about what the operations do, so one program text can be run
alone against a state or interleaved with other programs.

An interface is a type `Op` of operations and a family `Ret` giving the type of
the answer to each.

## Main definitions

* `Prog` — programs, with their monad.
* `Prog.Along` — the calls a program can make, and whether it can raise.
* `Prog.Runs` — the runs in which calls may fail.
* `Prog.GoesOn` — what a program goes on with after a call.
* `Prog.run`, `Prog.called` — running a program alone against a state, and its calls.
* `Prog.callEach` — calls in a row.
* `Prog.Ends` — what holds at the end of such a run.

## Main results

* `Prog.callEach_spec` — **calls in a row**: they are made until one fails.
* `Prog.ends_call` — the postcondition of a program, one call at a time.
-/

namespace Interaction

/-- A program over the interface `Op`, `Ret` that raises exceptions of type `ε`
and returns values of type `α`. -/
inductive Prog (Op : Type) (Ret : Op → Type) (ε α : Type) : Type
  /-- The program has returned. -/
  | pure (a : α)
  /-- The program has raised an exception. -/
  | raise (e : ε)
  /-- The program calls `o` and goes on with the answer. -/
  | call (o : Op) (k : Ret o → Prog Op Ret ε α)

namespace Prog

variable {Op : Type} {Ret : Op → Type} {ε α β σ : Type}

/-- Sequencing: an exception of the first part skips the second. -/
def bind : Prog Op Ret ε α → (α → Prog Op Ret ε β) → Prog Op Ret ε β
  | .pure a, f => f a
  | .raise e, _ => .raise e
  | .call o k, f => .call o fun r => (k r).bind f

instance : Monad (Prog Op Ret ε) where
  pure := Prog.pure
  bind := Prog.bind

/-- The program that makes one call and returns its answer. -/
def op (o : Op) : Prog Op Ret ε (Ret o) := .call o .pure

@[simp] theorem pure_eq (a : α) : (Pure.pure a : Prog Op Ret ε α) = .pure a := rfl

@[simp] theorem pure_bind (a : α) (f : α → Prog Op Ret ε β) : (Prog.pure a >>= f) = f a := rfl

@[simp] theorem op_bind (o : Op) (f : Ret o → Prog Op Ret ε β) :
    ((op o : Prog Op Ret ε (Ret o)) >>= f) = .call o f := rfl

@[simp] theorem map_raise (f : α → β) (e : ε) :
    (f <$> (Prog.raise e : Prog Op Ret ε α)) = .raise e := rfl

@[simp] theorem map_call (f : α → β) (o : Op) (k : Ret o → Prog Op Ret ε α) :
    (f <$> Prog.call o k) = .call o fun r => f <$> k r := rfl

/-! ### Programs that keep to a discipline -/

/-- Whatever the answers it gets, of those that `Answers` admits, the program makes
only calls that satisfy `Calls`, and raises an exception only if `Raises`. -/
def Along (Answers : (o : Op) → Ret o → Prop) (Calls : Op → Prop) (Raises : Prop) :
    Prog Op Ret ε α → Prop
  | .pure _ => True
  | .raise _ => Raises
  | .call o k => Calls o ∧ ∀ r, Answers o r → (k r).Along Answers Calls Raises

section along

variable {Answers : (o : Op) → Ret o → Prop} {Calls : Op → Prop} {Raises : Prop}

@[simp] theorem along_raise {e : ε} :
    (Prog.raise e : Prog Op Ret ε α).Along Answers Calls Raises ↔ Raises := Iff.rfl

@[simp] theorem along_call {o : Op} {k : Ret o → Prog Op Ret ε α} :
    (Prog.call o k).Along Answers Calls Raises ↔
      Calls o ∧ ∀ r, Answers o r → (k r).Along Answers Calls Raises := Iff.rfl

theorem Along.call {o : Op} {k : Ret o → Prog Op Ret ε α} (hcall : Calls o)
    (h : ∀ r, Answers o r → (k r).Along Answers Calls Raises) :
    (Prog.call o k).Along Answers Calls Raises := ⟨hcall, h⟩

@[simp] theorem along_map {f : α → β} {p : Prog Op Ret ε α} :
    (f <$> p).Along Answers Calls Raises ↔ p.Along Answers Calls Raises := by
  induction p with
  | pure a => exact Iff.rfl
  | raise e => exact Iff.rfl
  | call o k ih =>
    rw [map_call, along_call, along_call]
    exact and_congr_right fun _ => forall_congr' fun r => imp_congr_right fun _ => ih r

end along

/-- After some call of `o`, the program goes on with `k`. -/
inductive GoesOn : Prog Op Ret ε α → (o : Op) → (Ret o → Prog Op Ret ε α) → Prop
  | here {o : Op} {k : Ret o → Prog Op Ret ε α} : GoesOn (.call o k) o k
  | later {o o' : Op} {k : Ret o → Prog Op Ret ε α} {k' : Ret o' → Prog Op Ret ε α} {r : Ret o} :
    GoesOn (k r) o' k' → GoesOn (.call o k) o' k'

/-! ### Running alone -/

/-- Runs a program alone against a state: each call is answered by `exec`, and a
call that fails ends the program with that exception. -/
def run (exec : (o : Op) → σ → Except ε (Ret o) × σ) : Prog Op Ret ε α → σ → Except ε α × σ
  | .pure a, s => (.ok a, s)
  | .raise e, s => (.error e, s)
  | .call o k, s =>
    match exec o s with
    | (.ok r, s') => (k r).run exec s'
    | (.error e, s') => (.error e, s')

section run

variable (exec : (o : Op) → σ → Except ε (Ret o) × σ)

@[simp] theorem run_pure (a : α) (s : σ) :
    (Prog.pure a : Prog Op Ret ε α).run exec s = (.ok a, s) := rfl

@[simp] theorem run_raise (e : ε) (s : σ) :
    (Prog.raise e : Prog Op Ret ε α).run exec s = (.error e, s) := rfl

theorem run_call (o : Op) (k : Ret o → Prog Op Ret ε α) (s : σ) :
    (Prog.call o k).run exec s =
      match exec o s with
      | (.ok r, s') => (k r).run exec s'
      | (.error e, s') => (.error e, s') := by
  rw [run]

end run

/-! ### Runs with faults -/

/-- The runs of a program alone in which a call may also fail, with an exception and
a state that `Fails` admits after the calls that were answered so far. -/
inductive Runs (exec : (o : Op) → σ → Except ε (Ret o) × σ)
    (Fails : List Op → (o : Op) → σ → ε → σ → Prop) :
    List Op → Prog Op Ret ε α → σ → Except ε α → σ → Prop
  | pure {past : List Op} {a : α} {s : σ} : Runs exec Fails past (.pure a) s (.ok a) s
  | raise {past : List Op} {e : ε} {s : σ} : Runs exec Fails past (.raise e) s (.error e) s
  | answered {past : List Op} {o : Op} {k : Ret o → Prog Op Ret ε α} {s s' s'' : σ} {r : Ret o}
    {x : Except ε α} : exec o s = (.ok r, s') → Runs exec Fails (o :: past) (k r) s' x s'' →
    Runs exec Fails past (.call o k) s x s''
  | failed {past : List Op} {o : Op} {k : Ret o → Prog Op Ret ε α} {s s' : σ} {e : ε} :
    exec o s = (.error e, s') ∨ Fails past o s e s' →
      Runs exec Fails past (.call o k) s (.error e) s'

section runs

variable {exec : (o : Op) → σ → Except ε (Ret o) × σ}
  {Fails : List Op → (o : Op) → σ → ε → σ → Prop} {past : List Op} {s s' : σ}

/-- A run of a program that makes a call. -/
theorem Runs.call {o : Op} {k : Ret o → Prog Op Ret ε α} {x : Except ε α}
    (h : Runs exec Fails past (.call o k) s x s') :
    (∃ r s₁, exec o s = (.ok r, s₁) ∧ Runs exec Fails (o :: past) (k r) s₁ x s') ∨
      ∃ e, x = .error e ∧ (exec o s = (.error e, s') ∨ Fails past o s e s') := by
  cases h with
  | answered hx hk => exact .inl ⟨_, _, hx, hk⟩
  | failed hfail => exact .inr ⟨_, rfl, hfail⟩

/-- A program all of whose calls are answered, and which raises nothing, returns. -/
theorem Runs.returns {Calls : Op → Prop} {Past : List Op → Prop}
    (hcons : ∀ o past, Past past → Past (o :: past))
    (hcalls : ∀ past o s e s', Past past → Calls o →
      exec o s ≠ (.error e, s') ∧ ¬ Fails past o s e s')
    {p : Prog Op Ret ε α} {x : Except ε α} (h : Runs exec Fails past p s x s') (hpast : Past past)
    (hp : p.Along (fun _ _ => True) Calls False) : ∃ a, x = .ok a := by
  induction h with
  | pure => exact ⟨_, rfl⟩
  | raise => exact hp.elim
  | answered _ _ ih => exact ih (hcons _ _ hpast) (hp.2 _ trivial)
  | failed hfail =>
    obtain ⟨hanswered, hno⟩ := hcalls _ _ _ _ _ hpast hp.1
    rcases hfail with hx | hfails
    · exact absurd hx hanswered
    · exact absurd hfails hno

end runs

/-! ### The calls of a run -/

/-- The operations that a program calls when it runs alone, in order. -/
def called (exec : (o : Op) → σ → Except ε (Ret o) × σ) : Prog Op Ret ε α → σ → List Op
  | .pure _, _ => []
  | .raise _, _ => []
  | .call o k, s =>
    o :: match exec o s with
      | (.ok r, s') => (k r).called exec s'
      | (.error _, _) => []

section called

variable (exec : (o : Op) → σ → Except ε (Ret o) × σ)

theorem called_call (o : Op) (k : Ret o → Prog Op Ret ε α) (s : σ) :
    (Prog.call o k).called exec s =
      o :: match exec o s with
        | (.ok r, s') => (k r).called exec s'
        | (.error _, _) => [] := by
  rw [called]

@[simp] theorem called_map (f : α → β) (p : Prog Op Ret ε α) (s : σ) :
    (f <$> p).called exec s = p.called exec s := by
  induction p generalizing s with
  | pure a => rfl
  | raise e => rfl
  | call o k ih =>
    rw [map_call, called_call, called_call]
    rcases exec o s with ⟨_ | r, s'⟩
    · rfl
    · exact congrArg (o :: ·) (ih r s')

end called

/-! ### Calls in a row -/

/-- Calls the operations in order, whatever the answers. -/
def callEach : List Op → Prog Op Ret ε Unit
  | [] => .pure ()
  | o :: os => .call o fun _ => callEach os

section callEach

variable {exec : (o : Op) → σ → Except ε (Ret o) × σ}

@[simp] theorem callEach_append (os os' : List Op) :
    (callEach (os ++ os') : Prog Op Ret ε Unit) = callEach os >>= fun _ => callEach os' := by
  induction os with
  | nil => rfl
  | cons o os ih =>
    show Prog.call o (fun _ => callEach (os ++ os')) = _
    rw [ih]
    rfl

/-- Rows of calls, one after the other, are one row. -/
theorem forM_callEach {β : Type} (f : β → List Op) (xs : List β) :
    (xs.forM fun x => (callEach (f x) : Prog Op Ret ε Unit)) = callEach (xs.flatMap f) := by
  induction xs with
  | nil => rfl
  | cons x xs ih =>
    rw [List.flatMap_cons, callEach_append, ← ih]
    rfl

variable (exec) in
/-- **Calls in a row** are all made, or those up to the first that fails. -/
theorem callEach_spec (os : List Op) (s : σ) :
    ((callEach os).run exec s).1 = .ok () ∧ (callEach os).called exec s = os ∨
      ∃ e before o after s', os = before ++ o :: after ∧
        (callEach os).called exec s = before ++ [o] ∧
        (callEach before).run exec s = (.ok (), s') ∧ (∃ s'', exec o s' = (.error e, s'')) ∧
        ((callEach os).run exec s).1 = .error e := by
  induction os generalizing s with
  | nil => exact .inl ⟨rfl, rfl⟩
  | cons o os ih =>
    simp only [callEach, run_call, called_call]
    rcases hx : exec o s with ⟨e | r, s'⟩
    · exact .inr ⟨e, [], o, os, s, rfl, rfl, rfl, ⟨s', hx⟩, rfl⟩
    · rcases ih s' with ⟨hrun, hcalled⟩ |
        ⟨e, before, o', after, t, rfl, hcalled, hbefore, hfail, hrun⟩
      · exact .inl ⟨hrun, congrArg (o :: ·) hcalled⟩
      · refine .inr ⟨e, o :: before, o', after, t, rfl, congrArg (o :: ·) hcalled, ?_, hfail, hrun⟩
        rw [callEach, run_call, hx]
        exact hbefore

end callEach

/-! ### Postconditions -/

/-- Running `p` alone from `s` ends with an outcome and a state that satisfy `Q`. -/
def Ends (exec : (o : Op) → σ → Except ε (Ret o) × σ) (p : Prog Op Ret ε α) (s : σ)
    (Q : Except ε α → σ → Prop) : Prop :=
  Q (p.run exec s).1 (p.run exec s).2

section ends

variable {exec : (o : Op) → σ → Except ε (Ret o) × σ} {s s' : σ} {Q : Except ε α → σ → Prop}

@[simp] theorem ends_pure {a : α} : (Prog.pure a).Ends exec s Q ↔ Q (.ok a) s := Iff.rfl

theorem ends_call {o : Op} {k : Ret o → Prog Op Ret ε α} :
    (Prog.call o k).Ends exec s Q ↔
      match exec o s with
      | (.ok r, s') => (k r).Ends exec s' Q
      | (.error e, s') => Q (.error e) s' := by
  unfold Ends
  rw [run_call]
  rcases exec o s with ⟨_ | r, s'⟩ <;> rfl

theorem ends_call_ok {o : Op} {r : Ret o} {k : Ret o → Prog Op Ret ε α}
    (h : exec o s = (.ok r, s')) : (Prog.call o k).Ends exec s Q ↔ (k r).Ends exec s' Q := by
  rw [ends_call, h]

@[simp] theorem ends_map {f : α → β} {p : Prog Op Ret ε α} {Q : Except ε β → σ → Prop} :
    (f <$> p).Ends exec s Q ↔ p.Ends exec s fun r s' => Q (r.map f) s' := by
  induction p generalizing s with
  | pure a => exact Iff.rfl
  | raise e => exact Iff.rfl
  | call o k ih =>
    change (Prog.call o fun r => f <$> k r).Ends exec s Q ↔ _
    rw [ends_call, ends_call]
    rcases exec o s with ⟨_ | r, s'⟩
    · exact Iff.rfl
    · exact ih r

end ends

end Prog

end Interaction
