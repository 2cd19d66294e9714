/-!
# Backtracking patterns

The patterns the code compiles with `re`, and whether a backtracking matcher
finds a match that starts at the beginning of a string.  The matcher is written
with a continuation, so every way of splitting a repetition is tried.

## Main definitions

* `Regex` — patterns: a character class, its repetition, sequence, `$`.
* `Regex.run` — the matcher.
* `Regex.matchStart` — `re.match`, as a boolean.
* `Regex.Matches` — what a pattern matches, without a strategy.

## Main results

* `Regex.run_iff` — **the matcher finds a match iff there is one.**
-/

namespace Matching

/-- A pattern over the character type `C`. -/
inductive Regex (C : Type)
  /-- One character of a class. -/
  | chars (p : C → Bool)
  /-- One or more characters of a class, as many as possible first. -/
  | plus (p : C → Bool)
  /-- One pattern after another. -/
  | seq (a b : Regex C)
  /-- `$`: the end of the string, or just before a newline that ends it. -/
  | dollar (newline : C)

variable {C : Type} [DecidableEq C]

/-- One or more characters of the class `p`, then `k`. -/
def plusRun (p : C → Bool) (k : List C → Bool) : List C → Bool
  | [] => false
  | c :: s => p c && (plusRun p k s || k s)

/-- Whether `r` matches a prefix of the string whose remainder `k` accepts. -/
def Regex.run : Regex C → (List C → Bool) → List C → Bool
  | .chars _, _, [] => false
  | .chars p, k, c :: s => p c && k s
  | .plus p, k, s => plusRun p k s
  | .seq a b, k, s => a.run (fun s' => b.run k s') s
  | .dollar newline, k, s => (s == [] || s == [newline]) && k s

/-- Whether `r` matches at the start of the string. -/
def Regex.matchStart (r : Regex C) (s : List C) : Bool := r.run (fun _ => true) s

/-! ### What a pattern matches -/

omit [DecidableEq C] in
/-- The repetition tries every length. -/
@[simp] theorem plusRun_iff {p : C → Bool} {k : List C → Bool} {s : List C} :
    plusRun p k s = true ↔
      ∃ m rest, s = m ++ rest ∧ m ≠ [] ∧ (∀ c ∈ m, p c = true) ∧ k rest = true := by
  induction s with
  | nil => simp [plusRun]
  | cons c s ih =>
    rw [plusRun, Bool.and_eq_true, Bool.or_eq_true, ih]
    constructor
    · rintro ⟨hc, ⟨m, rest, rfl, -, hm, hk⟩ | hk⟩
      · exact ⟨c :: m, rest, rfl, List.cons_ne_nil _ _, List.forall_mem_cons.mpr ⟨hc, hm⟩, hk⟩
      · exact ⟨[c], s, rfl, List.cons_ne_nil _ _, by simpa using hc, hk⟩
    · rintro ⟨m, rest, heq, hne, hm, hk⟩
      cases m with
      | nil => exact absurd rfl hne
      | cons d m =>
        obtain ⟨rfl, rfl⟩ := List.cons.inj heq
        obtain ⟨hc, hm⟩ := List.forall_mem_cons.mp hm
        refine ⟨hc, ?_⟩
        by_cases hnil : m = []
        · subst hnil
          exact .inr hk
        · exact .inl ⟨m, rest, rfl, hnil, hm, hk⟩

/-- The pattern matches the first string, with the second after it. -/
def Regex.Matches : Regex C → List C → List C → Prop
  | .chars p, m, _ => ∃ c, m = [c] ∧ p c = true
  | .plus p, m, _ => m ≠ [] ∧ ∀ c ∈ m, p c = true
  | .seq a b, m, rest => ∃ m₁ m₂, m = m₁ ++ m₂ ∧ a.Matches m₁ (m₂ ++ rest) ∧ b.Matches m₂ rest
  | .dollar newline, m, rest => m = [] ∧ (rest = [] ∨ rest = [newline])

/-- **The matcher finds a match iff there is one.** -/
@[simp] theorem Regex.run_iff {r : Regex C} {k : List C → Bool} {s : List C} :
    r.run k s = true ↔ ∃ m rest, s = m ++ rest ∧ r.Matches m rest ∧ k rest = true := by
  induction r generalizing k s with
  | chars p =>
    cases s with
    | nil => simp [run, Matches]
    | cons c s =>
      rw [run, Bool.and_eq_true]
      constructor
      · rintro ⟨hc, hk⟩
        exact ⟨[c], s, rfl, ⟨c, rfl, hc⟩, hk⟩
      · rintro ⟨m, rest, heq, ⟨d, rfl, hd⟩, hk⟩
        obtain ⟨rfl, rfl⟩ := List.cons.inj heq
        exact ⟨hd, hk⟩
  | plus p =>
    rw [run, plusRun_iff]
    simp only [Matches, and_assoc]
  | seq a b iha ihb =>
    rw [run, iha]
    constructor
    · rintro ⟨m₁, rest₁, rfl, ha, hb⟩
      obtain ⟨m₂, rest, rfl, hb, hk⟩ := ihb.mp hb
      exact ⟨m₁ ++ m₂, rest, (List.append_assoc ..).symm, ⟨m₁, m₂, rfl, ha, hb⟩, hk⟩
    · rintro ⟨m, rest, rfl, ⟨m₁, m₂, rfl, ha, hb⟩, hk⟩
      exact ⟨m₁, m₂ ++ rest, List.append_assoc .., ha, ihb.mpr ⟨m₂, rest, rfl, hb, hk⟩⟩
  | dollar newline =>
    rw [run, Bool.and_eq_true, Bool.or_eq_true, beq_iff_eq, beq_iff_eq]
    constructor
    · rintro ⟨hend, hk⟩
      exact ⟨[], s, rfl, ⟨rfl, hend⟩, hk⟩
    · rintro ⟨m, rest, rfl, ⟨rfl, hend⟩, hk⟩
      exact ⟨hend, hk⟩

@[simp] theorem Regex.matchStart_iff {r : Regex C} {s : List C} :
    r.matchStart s = true ↔ ∃ m rest, s = m ++ rest ∧ r.Matches m rest := by
  rw [matchStart, run_iff]
  simp only [and_true]

end Matching
