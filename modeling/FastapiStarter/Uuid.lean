import FastapiStarter.PyStr
import Mathlib.Order.Fin.Basic
import Mathlib.Tactic.Ring

/-!
# UUIDs

The part of Python's `uuid` module the code uses: the 128-bit value, the canonical
text `str(u)`, and the lenient parser `UUID(text)`, which goes through `int(_, 16)`.
Databases order UUIDs by value.

## Main definitions

* `UUID`, `UUID.str`, `UUID.ofStr` — values, printing, parsing.
* `intBase16` — `int(s, 16)`.

## Main results

* `UUID.ofStr_str` — parsing the canonical text gives the UUID back.
-/

namespace FastapiStarter

/-- A UUID, by its 128-bit value. -/
structure UUID where
  int : Fin (2 ^ 128)
  deriving DecidableEq

namespace UUID

theorem int_injective : Function.Injective UUID.int := by
  intro u v h
  cases u
  cases v
  cases h
  rfl

instance : LinearOrder UUID := LinearOrder.lift' UUID.int int_injective

end UUID

/-! ### Hexadecimal numerals -/

/-- The lower-case digit of a value below sixteen. -/
def hexDigit (n : ℕ) : CodePoint := Fin.ofNat _ (if n < 10 then 48 + n else 87 + n)

/-- `'%0{w}x' % n`, for a value of at most `w` digits. -/
def hexPad : ℕ → ℕ → Str
  | 0, _ => []
  | w + 1, n => hexPad w (n / 16) ++ [hexDigit (n % 16)]

section parsing

variable [Unicode]

/-- The value of a hexadecimal digit; digits outside ASCII count by their decimal
value. -/
def hexVal (c : CodePoint) : Option ℕ :=
  if 48 ≤ c.val ∧ c.val ≤ 57 then some (c.val - 48)
  else if 65 ≤ c.val ∧ c.val ≤ 70 then some (c.val - 55)
  else if 97 ≤ c.val ∧ c.val ≤ 102 then some (c.val - 87)
  else if 127 ≤ c.val then (Unicode.decimal c).map Fin.val
  else none

/-- Reads digits with single underscores between them; `last` says whether the
character before was a digit. -/
def digits16 : ℕ → Bool → Str → Option ℕ
  | acc, last, [] => if last then some acc else none
  | acc, last, c :: s =>
    if c = ch '_' then if last then digits16 acc false s else none
    else match hexVal c with
      | some d => digits16 (acc * 16 + d) true s
      | none => none

/-- Drops the prefix `0x`, and one underscore after it. -/
def dropPrefix0x : Str → Str
  | c :: d :: s =>
    if c = ch '0' ∧ (d = ch 'x' ∨ d = ch 'X') then
      match s with
      | u :: s' => if u = ch '_' then s' else s
      | [] => []
    else c :: d :: s
  | s => s

/-- The whitespace `int` skips at both ends. -/
def isIntSpace (c : CodePoint) : Bool := isSpace c && !(28 ≤ c.val && c.val ≤ 31)

/-- `int(s, 16)`; `none` for a `ValueError`. -/
def intBase16 (s : Str) : Option ℤ :=
  match (s.dropWhile isIntSpace).rdropWhile isIntSpace with
  | [] => none
  | c :: t =>
    if c = ch '+' then (digits16 0 false (dropPrefix0x t)).map Int.ofNat
    else if c = ch '-' then (digits16 0 false (dropPrefix0x t)).map fun n => -(n : ℤ)
    else (digits16 0 false (dropPrefix0x (c :: t))).map Int.ofNat

end parsing

/-! ### Printing and parsing -/

namespace UUID

/-- `str(u)`: the digits in groups of 8, 4, 4, 4 and 12. -/
def str (u : UUID) : Str :=
  let hex := hexPad 32 u.int
  hex.take 8 ++ ch '-' :: ((hex.drop 8).take 4 ++ ch '-' :: ((hex.drop 12).take 4 ++
    ch '-' :: ((hex.drop 16).take 4 ++ ch '-' :: hex.drop 20)))

/-- `UUID(raw)`; `none` for a `ValueError`. -/
def ofStr [Unicode] (raw : Str) : Option UUID :=
  let hex := Str.remove (lit ['-']) (Str.stripChars (lit ['{', '}'])
    (Str.remove (lit ['u', 'u', 'i', 'd', ':']) (Str.remove (lit ['u', 'r', 'n', ':']) raw)))
  if hex.length ≠ 32 then none
  else match intBase16 hex with
    | some n => if h : n.toNat < 2 ^ 128 ∧ 0 ≤ n then some ⟨⟨n.toNat, h.1⟩⟩ else none
    | none => none

end UUID

/-! ### The round trip -/

theorem val_hexDigit {n : ℕ} (h : n < 16) :
    (hexDigit n).val = if n < 10 then 48 + n else 87 + n := by
  unfold hexDigit
  split <;> exact Nat.mod_eq_of_lt (by omega)

@[simp] theorem length_hexPad (w n : ℕ) : (hexPad w n).length = w := by
  induction w generalizing n with
  | zero => rfl
  | succ w ih => simp [hexPad, ih]

/-- The characters of a numeral: a digit, or one of the letters `a` to `f`. -/
theorem mem_hexPad {w n : ℕ} {c : CodePoint} (h : c ∈ hexPad w n) :
    48 ≤ c.val ∧ c.val ≤ 57 ∨ 97 ≤ c.val ∧ c.val ≤ 102 := by
  induction w generalizing n with
  | zero => simp [hexPad] at h
  | succ w ih =>
    rw [hexPad, List.mem_append, List.mem_singleton] at h
    rcases h with h | rfl
    · exact ih h
    · rw [val_hexDigit (Nat.mod_lt _ (by omega))]
      split <;> omega

theorem ne_of_mem_hexPad {w n : ℕ} {c d : CodePoint} (h : c ∈ hexPad w n)
    (hd : d.val < 48 ∨ 57 < d.val ∧ d.val < 97 ∨ 102 < d.val) : c ≠ d := by
  rintro rfl
  have := mem_hexPad h
  omega

section parsing

variable [Unicode]

theorem hexVal_hexDigit {n : ℕ} (h : n < 16) : hexVal (hexDigit n) = some n := by
  unfold hexVal
  rw [val_hexDigit h]
  by_cases h10 : n < 10
  · simp only [if_pos h10]
    rw [if_pos (by omega)]
    congr 1; omega
  · simp only [if_neg h10]
    rw [if_neg (by omega), if_neg (by omega), if_pos (by omega)]
    congr 1; omega

/-- Reading a numeral of at least one digit adds its digits to the accumulator. -/
theorem digits16_hexPad_append (w n acc : ℕ) (last : Bool) (s : Str) :
    digits16 acc last (hexPad (w + 1) n ++ s)
      = digits16 (acc * 16 ^ (w + 1) + n % 16 ^ (w + 1)) true s := by
  have hstep : ∀ (acc : ℕ) (last : Bool) (d : ℕ) (s : Str), d < 16 →
      digits16 acc last (hexDigit d :: s) = digits16 (acc * 16 + d) true s := by
    intro acc last d s hd
    have hne : hexDigit d ≠ ch '_' := by
      intro h
      have hv := congrArg Fin.val h
      rw [val_hexDigit hd, show (ch '_').val = 95 from rfl] at hv
      split at hv <;> omega
    rw [digits16, if_neg hne, hexVal_hexDigit hd]
  induction w generalizing n acc last s with
  | zero =>
    rw [hexPad, hexPad, List.nil_append, List.singleton_append,
      hstep _ _ _ _ (Nat.mod_lt _ (by omega))]
    norm_num
  | succ w ih =>
    rw [hexPad, List.append_assoc, ih, List.singleton_append,
      hstep _ _ _ _ (Nat.mod_lt _ (by omega))]
    have hmod : n / 16 % 16 ^ (w + 1) * 16 + n % 16 = n % 16 ^ (w + 1 + 1) := by
      rw [pow_succ 16 (w + 1), mul_comm (16 ^ (w + 1)), Nat.mod_mul]
      ring
    rw [← hmod]
    congr 1
    ring

end parsing

theorem Str.removeAux_of_head_notMem {p : CodePoint} {pat s : Str} (h : p ∉ s) :
    Str.removeAux (p :: pat) 0 s = s := by
  induction s with
  | nil => rfl
  | cons c s ih =>
    rw [List.mem_cons, not_or] at h
    rw [Str.removeAux, if_neg (by simp [h.1]), ih h.2]

theorem Str.remove_singleton (p : CodePoint) (s : Str) :
    Str.remove [p] s = s.filter fun c => c ≠ p := by
  unfold Str.remove
  induction s with
  | nil => rfl
  | cons c s ih =>
    by_cases h : c = p
    · subst h; simpa [Str.removeAux] using ih
    · simp [Str.removeAux, Ne.symm h, h, ih]

theorem Str.stripChars_of_notMem {chars s : Str} (h : ∀ c ∈ s, c ∉ chars) :
    Str.stripChars chars s = s := by
  have hfront : (s.dropWhile fun c => chars.contains c) = s := by
    cases s with
    | nil => rfl
    | cons c s => simp [h c (by simp)]
  rw [Str.stripChars, hfront, List.rdropWhile_eq_self_iff]
  intro hne
  simpa using h _ (List.getLast_mem hne)

namespace UUID

/-- The text of a UUID is made of digits and dashes. -/
theorem mem_str {u : UUID} {c : CodePoint} (h : c ∈ u.str) : c ∈ hexPad 32 u.int ∨ c = ch '-' := by
  simp only [str, List.mem_append, List.mem_cons] at h
  have htake : ∀ (l : Str) (n : ℕ), c ∈ l.take n → c ∈ l := fun l n h => List.mem_of_mem_take h
  have hdrop : ∀ n : ℕ, c ∈ (hexPad 32 u.int).drop n → c ∈ hexPad 32 u.int :=
    fun n h => List.mem_of_mem_drop h
  rcases h with h | rfl | h | rfl | h | rfl | h | rfl | h
  · exact .inl (htake _ _ h)
  · exact .inr rfl
  · exact .inl (hdrop _ (htake _ _ h))
  · exact .inr rfl
  · exact .inl (hdrop _ (htake _ _ h))
  · exact .inr rfl
  · exact .inl (hdrop _ (htake _ _ h))
  · exact .inr rfl
  · exact .inl (hdrop _ h)

/-- Without its dashes, the text of a UUID is its 32 digits. -/
theorem filter_str (u : UUID) : u.str.filter (fun c => c ≠ ch '-') = hexPad 32 u.int := by
  have hkeep : ∀ l : Str, (∀ c ∈ l, c ∈ hexPad 32 u.int) → l.filter (fun c => c ≠ ch '-') = l := by
    intro l hl
    rw [List.filter_eq_self]
    intro c hc
    simpa using ne_of_mem_hexPad (hl c hc) (d := ch '-') (.inl (by decide))
  have htake : ∀ a b, ∀ c ∈ ((hexPad 32 u.int).drop a).take b, c ∈ hexPad 32 u.int :=
    fun a b c h => List.mem_of_mem_drop (List.mem_of_mem_take h)
  have hdash : ∀ l : Str, (ch '-' :: l).filter (fun c => c ≠ ch '-')
      = l.filter fun c => c ≠ ch '-' := fun l => by simp
  simp only [str, List.filter_append, hdash]
  rw [hkeep _ fun c h => List.mem_of_mem_take h, hkeep _ (htake 8 4), hkeep _ (htake 12 4),
    hkeep _ (htake 16 4), hkeep _ fun c h => List.mem_of_mem_drop h]
  have hjoin : ∀ a b : ℕ, ((hexPad 32 u.int).drop a).take b ++ (hexPad 32 u.int).drop (a + b)
      = (hexPad 32 u.int).drop a := fun a b => by rw [← List.drop_drop, List.take_append_drop]
  rw [hjoin 16 4, hjoin 12 4, hjoin 8 4, List.take_append_drop]

variable [Unicode]

/-- `int(_, 16)` reads the 32 digits of a UUID. -/
theorem intBase16_hexPad (u : UUID) : intBase16 (hexPad 32 u.int) = some (u.int.val : ℤ) := by
  have hlow : ∀ c ∈ hexPad 32 u.int, isIntSpace c = false := by
    intro c hc
    have hspace : isSpace c = false := by
      have := mem_hexPad hc
      simp only [isSpace, List.contains_eq_mem, decide_eq_false_iff_not]
      simp only [List.mem_cons, List.not_mem_nil, or_false]
      omega
    simp [isIntSpace, hspace]
  -- there is nothing to strip: no digit is a space
  have hstrip : ((hexPad 32 u.int).dropWhile isIntSpace).rdropWhile isIntSpace =
      hexPad 32 u.int := by
    rw [List.dropWhile_eq_self_iff.mpr fun hl => by simp [hlow _ (List.getElem_mem hl)],
      List.rdropWhile_eq_self_iff]
    intro hne
    simp [hlow _ (List.getLast_mem hne)]
  have hdigits : digits16 0 false (hexPad 32 u.int) = some u.int.val := by
    have := digits16_hexPad_append 31 u.int.val 0 false []
    rw [List.append_nil] at this
    rw [this, digits16, if_pos rfl, Nat.mod_eq_of_lt
      (by have := u.int.isLt; norm_num at this ⊢; exact this)]
    simp
  have hlen := length_hexPad 32 u.int
  have hmem := @ne_of_mem_hexPad 32 u.int
  unfold intBase16
  rw [hstrip]
  generalize hexPad 32 u.int.val = hex at *
  rcases hex with _ | ⟨c, _ | ⟨d, t⟩⟩
  · cases hlen
  · cases hlen
  · -- and nothing that looks like a sign or a base
    have hx : d ≠ ch 'x' := hmem (by simp) (.inr (.inr (by decide)))
    have hX : d ≠ ch 'X' := hmem (by simp) (.inr (.inl (by decide)))
    have hprefix : dropPrefix0x (c :: d :: t) = c :: d :: t := by simp [dropPrefix0x, hx, hX]
    simp only
    rw [if_neg (hmem (by simp) (.inl (by decide))), if_neg (hmem (by simp) (.inl (by decide))),
      hprefix, hdigits]
    rfl

/-- **Parsing the canonical text of a UUID gives it back.** -/
theorem ofStr_str (u : UUID) : ofStr u.str = some u := by
  have hne : ∀ {d : CodePoint}, (d.val < 45 ∨ 57 < d.val ∧ d.val < 97 ∨ 102 < d.val) →
      ∀ c ∈ u.str, c ≠ d := by
    rintro d hd c hc rfl
    rcases mem_str hc with h | h
    · exact ne_of_mem_hexPad h (by omega) rfl
    · rw [h, show (ch '-').val = 45 from rfl] at hd
      omega
  have hu : ch 'u' ∉ u.str := fun h => hne (.inr (.inr (by decide))) _ h rfl
  have hurn : Str.remove (lit ['u', 'r', 'n', ':']) u.str = u.str :=
    Str.removeAux_of_head_notMem hu
  have huuid : Str.remove (lit ['u', 'u', 'i', 'd', ':']) u.str = u.str :=
    Str.removeAux_of_head_notMem hu
  have hbraces : Str.stripChars (lit ['{', '}']) u.str = u.str := by
    refine Str.stripChars_of_notMem fun c hc hmem => ?_
    simp only [lit, List.map_cons, List.map_nil, List.mem_cons, List.not_mem_nil, or_false] at hmem
    rcases hmem with rfl | rfl
    · exact hne (.inr (.inr (by decide))) _ hc rfl
    · exact hne (.inr (.inr (by decide))) _ hc rfl
  have hdashes : Str.remove (lit ['-']) u.str = hexPad 32 u.int :=
    (Str.remove_singleton _ _).trans (filter_str u)
  unfold ofStr
  simp only [hurn, huuid, hbraces, hdashes]
  rw [if_neg (by simp), intBase16_hexPad]
  simp

theorem str_injective : Function.Injective str := fun u v h =>
  Option.some.inj (by rw [← ofStr_str u, h, ofStr_str])

end UUID

end FastapiStarter
