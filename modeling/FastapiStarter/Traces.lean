import FastapiStarter.Execution

/-!
# Traces

The trace of a run of requests side by side lists the port calls and their
answers.  What other requests can see of a request begins with its commit.

## Main definitions

* `Trace` — the port calls of a run.
* `IsCommit`, `Changed` — the commits in a trace.
-/

namespace FastapiStarter

open Interaction

section traces

variable [Unicode]

/-- The trace of the port calls of a run, newest first. -/
abbrev Trace := List (Event ℕ Port Port.Ret Exc)

/-- A commit that succeeded. -/
def IsCommit : Event ℕ Port Port.Ret Exc → Bool
  | ⟨_, .commit, .ok _⟩ => true
  | _ => false

theorem op_of_isCommit {ev : Event ℕ Port Port.Ret Exc} (h : IsCommit ev = true) :
    ev.op = .commit ∧ ∀ e, ev.answer ≠ .error e := by
  unfold IsCommit at h
  split at h
  · exact ⟨rfl, by simp⟩
  · cases h

section commits

variable {k sid : ℕ} {o : Port} {ans : Except Exc o.Ret} {tr : Trace}

theorem isCommit_of_ne (ho : o ≠ .commit) : IsCommit ⟨sid, o, ans⟩ = false := by
  by_contra hcommit
  exact ho (op_of_isCommit (by simpa using hcommit)).1

/-- Request `k` has committed. -/
def Changed (k : ℕ) (tr : Trace) : Prop := ∃ ev ∈ tr, ev.who = k ∧ IsCommit ev = true

instance (k : ℕ) (tr : Trace) : Decidable (Changed k tr) :=
  inferInstanceAs (Decidable (∃ ev ∈ tr, ev.who = k ∧ IsCommit ev = true))

@[simp] theorem changed_nil : ¬ Changed k [] := by
  simp [Changed]

@[simp] theorem changed_cons {ev : Event ℕ Port Port.Ret Exc} :
    Changed k (ev :: tr) ↔ (ev.who = k ∧ IsCommit ev = true) ∨ Changed k tr := by
  simp [Changed]

end commits

end traces

end FastapiStarter
