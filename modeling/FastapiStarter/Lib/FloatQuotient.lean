import Mathlib.Data.Nat.Basic
import Mathlib.Tactic.Ring

/-!
# Quotients as doubles

A quotient of natural numbers becomes the double nearest to it, of 53 bits, and the
fraction is dropped afterwards.  As the double may lie above the quotient, its whole part
may be the next number.  It is the quotient rounded down as long as the distance between
two doubles is small beside the fractions that the denominator allows.

The quotients here are below `2 ^ 53`, and so are the denominators: then a quotient below
one becomes a double below one.

## Main definitions

* `roundHalfEven` — the integer nearest to a quotient.
* `trunc` — the whole part of the double nearest to a quotient.

## Main results

* `div_le_trunc`, `trunc_le` — how far the whole part is from the quotient.
* `trunc_eq_div` — **when rounding changes nothing.**
-/

namespace FloatQuotient

/-- The integer nearest to `n / d`, and the even one of two that are equally near. -/
def roundHalfEven (n d : ℕ) : ℕ :=
  if 2 * (n % d) < d then n / d
  else if d < 2 * (n % d) then n / d + 1
  else n / d + n / d % 2

/-- How many of the 53 bits of a double with the whole part `q` are left for its fraction. -/
def fractionBits (q : ℕ) : ℕ := 52 - q.log2

/-- `int(n / d)`: the whole part of the double nearest to the quotient. -/
def trunc (n d : ℕ) : ℕ :=
  if n < d then 0
  else roundHalfEven (n * 2 ^ fractionBits (n / d)) d / 2 ^ fractionBits (n / d)

section rounding

variable {n d c k s q : ℕ}

/-- Rounding does not go below the quotient rounded down. -/
theorem div_le_roundHalfEven : n / d ≤ roundHalfEven n d := by
  unfold roundHalfEven
  split
  · exact le_rfl
  split
  · exact Nat.le_succ _
  · exact Nat.le_add_right _ _

/-- Nor does it go past an integer that is more than one half away. -/
theorem roundHalfEven_lt (h : 2 * n + d < 2 * c * d) : roundHalfEven n d < c := by
  have hn : n / d * d + n % d = n := Nat.div_add_mod' n d
  have hround : 2 * (roundHalfEven n d * d) ≤ 2 * n + d := by
    unfold roundHalfEven
    split
    · omega
    split
    · rw [add_mul]
      omega
    · have hparity : n / d % 2 * d ≤ 1 * d := Nat.mul_le_mul_right d (by omega)
      rw [add_mul]
      omega
  refine Nat.lt_of_mul_lt_mul_right (a := d) ?_
  rw [mul_assoc] at h
  omega

/-- A small whole part leaves many bits to the fraction. -/
theorem le_fractionBits (hk : k ≤ 52) (h : q < 2 ^ (53 - k)) : k ≤ fractionBits q := by
  unfold fractionBits
  rcases Nat.eq_zero_or_pos q with rfl | hq
  · simpa using hk
  · have hlog : q.log2 < 53 - k := (Nat.log2_lt hq.ne').mpr h
    omega

/-! ### The whole part -/

theorem div_le_trunc (hd : 0 < d) : n / d ≤ trunc n d := by
  unfold trunc
  split
  next hlt => rw [Nat.div_eq_of_lt hlt]
  next =>
    rw [Nat.le_div_iff_mul_le (Nat.two_pow_pos _)]
    refine le_trans ?_ div_le_roundHalfEven
    rw [Nat.le_div_iff_mul_le hd, mul_right_comm]
    exact Nat.mul_le_mul_right _ (Nat.div_mul_le_self n d)

/-- **The whole part is too large** only if the quotient is near the next integer: within
`s / d`, if the fraction has bits enough. -/
theorem trunc_le (hd : 0 < d) (hk : k ≤ 52) (hq : n / d < 2 ^ (53 - k))
    (hs : d < 2 * 2 ^ k * (s + 1)) : trunc n d ≤ (n + s) / d := by
  unfold trunc
  split
  · exact Nat.zero_le _
  set N := 2 ^ fractionBits (n / d)
  have hN : 2 ^ k ≤ N := Nat.pow_le_pow_right Nat.two_pos (le_fractionBits hk hq)
  -- the next multiple of the denominator, and the double nearest to it
  have hnext : n + s + 1 ≤ ((n + s) / d + 1) * d := 
    (Nat.div_lt_iff_lt_mul hd).mp (Nat.lt_succ_self _)
  refine Nat.lt_succ_iff.mp ((Nat.div_lt_iff_lt_mul (Nat.two_pow_pos _)).mpr ?_)
  refine roundHalfEven_lt ?_
  calc 2 * (n * N) + d < 2 * (n * N) + 2 * 2 ^ k * (s + 1) := Nat.add_lt_add_left hs _
    _ ≤ 2 * (n * N) + 2 * N * (s + 1) := by gcongr
    _ = 2 * N * (n + s + 1) := by ring
    _ ≤ 2 * N * (((n + s) / d + 1) * d) := Nat.mul_le_mul_left _ hnext
    _ = 2 * (((n + s) / d).succ * N) * d := by rw [Nat.succ_eq_add_one]; ring

/-- **Rounding changes nothing** while the next double is less than two steps of the
denominator away. -/
theorem trunc_eq_div (hd : 0 < d) (hk : k ≤ 52) (hq : n / d < 2 ^ (53 - k))
    (hfine : d < 2 * 2 ^ k) : trunc n d = n / d :=
  le_antisymm (trunc_le (s := 0) hd hk hq (by rwa [zero_add, mul_one])) (div_le_trunc hd)

end rounding

end FloatQuotient
