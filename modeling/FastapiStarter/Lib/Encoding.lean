import Mathlib.Algebra.GroupWithZero.Nat
import Mathlib.Data.List.Basic
import Mathlib.Data.Nat.Notation

/-!
# UTF-8 and base64

Text as bytes, and bytes as text.  UTF-8 is strict: surrogates are not encoded,
and overlong forms are not decoded.  The base64 decoder is the lenient one that
skips bytes outside the alphabet and stops at the padding.

## Main definitions

* `Byte` — bytes.
* `Utf8.encode`, `Utf8.decode` — UTF-8.
* `Base64.Alphabet`, `Base64.encode`, `Base64.decode` — base64 over an alphabet.

## Main results

* `Utf8.exists_encode_ascii`, `Utf8.exists_decode_ascii` — ASCII survives UTF-8.
* `Base64.decode_encode` — decoding gives the encoded bytes back.
* `Base64.mem_encode_of_dvd` — bytes that come in threes are not padded.
-/

namespace Encoding

/-- A byte. -/
abbrev Byte := Fin 256

/-- The byte of a value below 256. -/
def byte (n : ℕ) : Byte := Fin.ofNat 256 n

theorem val_byte {n : ℕ} (h : n < 256) : (byte n).val = n := Nat.mod_eq_of_lt h

/-! ### UTF-8 -/

namespace Utf8

/-- A code point. -/
abbrev Point := Fin 1114112

/-- A continuation byte, for the lowest six bits. -/
def tail (n : ℕ) : Byte := byte (0x80 + n % 64)

/-- The bytes of a code point; a surrogate has none. -/
def encodePoint (c : Point) : Option (List Byte) :=
  let n := c.val
  if n < 0x80 then some [byte n]
  else if n < 0x800 then some [byte (0xC0 + n / 64), tail n]
  else if 0xD800 ≤ n ∧ n < 0xE000 then none
  else if n < 0x10000 then some [byte (0xE0 + n / 4096), tail (n / 64), tail n]
  else some [byte (0xF0 + n / 262144), tail (n / 4096), tail (n / 64), tail n]

/-- The bytes of a text. -/
def encode (s : List Point) : Option (List Byte) := (s.mapM encodePoint).map List.flatten

/-- The bits of a continuation byte. -/
def tailVal (b : Byte) : Option ℕ :=
  if 0x80 ≤ b.val ∧ b.val < 0xC0 then some (b.val - 0x80) else none

/-- The code point of a value, if it needs as many bytes as it was given and is no
surrogate. -/
def point (low n : ℕ) : Option Point :=
  if h : low ≤ n ∧ ¬ (0xD800 ≤ n ∧ n < 0xE000) ∧ n < 1114112 then some ⟨n, h.2.2⟩ else none

/-- The text of a sequence of bytes. -/
def decode : List Byte → Option (List Point)
  | [] => some []
  | a :: bs =>
    if a.val < 0x80 then (decode bs).map (Fin.ofNat 1114112 a.val :: ·)
    else if a.val < 0xC0 then none
    else match bs with
      | [] => none
      | b :: bs =>
        if a.val < 0xE0 then do
          let c ← point 0x80 ((a.val - 0xC0) * 64 + (← tailVal b))
          (decode bs).map (c :: ·)
        else match bs with
          | [] => none
          | b' :: bs =>
            if a.val < 0xF0 then do
              let c ← point 0x800 (((a.val - 0xE0) * 64 + (← tailVal b)) * 64 + (← tailVal b'))
              (decode bs).map (c :: ·)
            else match bs with
              | [] => none
              | b'' :: bs => do
                let c ← point 0x10000 ((((a.val - 0xF0) * 64 + (← tailVal b)) * 64 +
                  (← tailVal b')) * 64 + (← tailVal b''))
                (decode bs).map (c :: ·)

theorem encode_cons_ascii {c : Point} (h : c.val < 0x80) (s : List Point) :
    encode (c :: s) = (encode s).map (byte c.val :: ·) := by
  have hc : encodePoint c = some [byte c.val] := if_pos h
  simp only [encode, List.mapM_cons, hc]
  rcases s.mapM encodePoint with _ | l <;> rfl

theorem decode_cons_ascii {b : Byte} (h : b.val < 0x80) (bs : List Byte) :
    decode (b :: bs) = (decode bs).map (Fin.ofNat 1114112 b.val :: ·) := by
  rw [decode.eq_def]
  exact if_pos h

/-- The bytes of ASCII text are its code points. -/
theorem encode_ascii {s : List Point} (h : ∀ c ∈ s, c.val < 0x80) :
    encode s = some (s.map fun c => byte c.val) := by
  induction s with
  | nil => rfl
  | cons c s ih =>
    rw [encode_cons_ascii (h c List.mem_cons_self), ih fun d hd => h d (List.mem_cons_of_mem _ hd)]
    rfl

/-- The code points of ASCII bytes are their values. -/
theorem decode_ascii {bs : List Byte} (h : ∀ b ∈ bs, b.val < 0x80) :
    decode bs = some (bs.map fun b => Fin.ofNat 1114112 b.val) := by
  induction bs with
  | nil => rfl
  | cons b bs ih =>
    rw [decode_cons_ascii (h b List.mem_cons_self), ih fun d hd => h d (List.mem_cons_of_mem _ hd)]
    rfl

/-- **ASCII text survives its bytes.** -/
theorem exists_encode_ascii {s : List Point} (h : ∀ c ∈ s, c.val < 0x80) :
    ∃ bs, encode s = some bs ∧ decode bs = some s := by
  have hval : ∀ c ∈ s, (byte c.val).val = c.val :=
    fun c hc => val_byte (Nat.lt_trans (h c hc) (by decide))
  have hbytes : ∀ b ∈ s.map fun c => byte c.val, b.val < 0x80 := by
    intro b hb
    obtain ⟨c, hc, rfl⟩ := List.mem_map.mp hb
    rw [hval c hc]
    exact h c hc
  refine ⟨_, encode_ascii h, (decode_ascii hbytes).trans (congrArg some ?_)⟩
  rw [List.map_map]
  refine (List.map_congr_left fun c hc => ?_).trans (List.map_id s)
  rw [Function.comp_apply, hval c hc, Fin.ofNat_val_eq_self]
  rfl

/-- **ASCII bytes survive their text.** -/
theorem exists_decode_ascii {bs : List Byte} (h : ∀ b ∈ bs, b.val < 0x80) :
    ∃ s, decode bs = some s ∧ encode s = some bs := by
  have hval : ∀ b ∈ bs, (Fin.ofNat 1114112 b.val).val = b.val :=
    fun b hb => Nat.mod_eq_of_lt (Nat.lt_trans (h b hb) (by decide))
  have htext : ∀ c ∈ bs.map fun b => Fin.ofNat 1114112 b.val, c.val < 0x80 := by
    intro c hc
    obtain ⟨b, hb, rfl⟩ := List.mem_map.mp hc
    rw [hval b hb]
    exact h b hb
  refine ⟨_, decode_ascii h, (encode_ascii htext).trans (congrArg some ?_)⟩
  rw [List.map_map]
  refine (List.map_congr_left fun b hb => ?_).trans (List.map_id bs)
  rw [Function.comp_apply, hval b hb, byte, Fin.ofNat_val_eq_self]
  rfl

end Utf8

/-! ### Base64 -/

namespace Base64

/-- An alphabet: the digits written, those read, and the padding. -/
structure Alphabet where
  /-- The digit of a value. -/
  digit : Fin 64 → Byte
  /-- The value of a digit. -/
  value : Byte → Option (Fin 64)
  /-- The padding. -/
  pad : Byte
  /-- The digits written can be read. -/
  value_digit : ∀ v, value (digit v) = some v
  /-- The padding is no digit. -/
  digit_ne_pad : ∀ v, digit v ≠ pad

variable (A : Alphabet)

instance neZeroSextet : NeZero 64 := ⟨by decide⟩

/-- The digit of the lowest six bits. -/
def Alphabet.sextet (n : ℕ) : Byte := A.digit (Fin.ofNat 64 n)

/-- Encodes three bytes as four digits, and pads the last group. -/
def encode : List Byte → List Byte
  | [] => []
  | [a] => [A.sextet (a.val / 4), A.sextet (a.val * 16), A.pad, A.pad]
  | [a, b] =>
    [A.sextet (a.val / 4), A.sextet (a.val * 16 + b.val / 16), A.sextet (b.val * 4), A.pad]
  | a :: b :: c :: bs =>
    A.sextet (a.val / 4) :: A.sextet (a.val * 16 + b.val / 16) ::
      A.sextet (b.val * 4 + c.val / 64) :: A.sextet c.val :: encode bs

/-- How many digits of a group were read, with the bits that are left of them. -/
inductive Group
  /-- None. -/
  | zero
  /-- One, which leaves six bits. -/
  | one (bits : ℕ)
  /-- Two, which leave four bits. -/
  | two (bits : ℕ)
  /-- Three, which leave two bits. -/
  | three (bits : ℕ)

/-- Decodes the rest of the input; `pads` paddings were read since the last digit. -/
def decodeFrom : ℕ → Group → List Byte → Option (List Byte)
  | _, .zero, [] => some []
  | _, _, [] => none
  | pads, g, c :: cs =>
    if c = A.pad then
      match g with
      -- padding completes a group of two or three digits, and ends the input
      | .two bits => if 2 ≤ pads + 1 then some [] else decodeFrom (pads + 1) (.two bits) cs
      | .three _ => some []
      | g => decodeFrom pads g cs
    else match A.value c with
      | none => decodeFrom pads g cs
      | some v =>
        match g with
        | .zero => decodeFrom 0 (.one v.val) cs
        | .one bits => (decodeFrom 0 (.two (v.val % 16)) cs).map (byte (bits * 4 + v.val / 16) :: ·)
        | .two bits => (decodeFrom 0 (.three (v.val % 4)) cs).map
            (byte (bits * 16 + v.val / 4) :: ·)
        | .three bits => (decodeFrom 0 .zero cs).map (byte (bits * 64 + v.val) :: ·)

/-- Decodes base64; bytes outside the alphabet are skipped. -/
def decode (cs : List Byte) : Option (List Byte) := decodeFrom A 0 .zero cs

section roundtrip

variable {A}

/-- Reading a digit that was written. -/
theorem decodeFrom_sextet (pads : ℕ) (g : Group) (n : ℕ) (cs : List Byte) :
    decodeFrom A pads g (A.sextet n :: cs) =
      match g with
      | .zero => decodeFrom A 0 (.one (n % 64)) cs
      | .one bits => (decodeFrom A 0 (.two (n % 64 % 16)) cs).map
          (byte (bits * 4 + n % 64 / 16) :: ·)
      | .two bits => (decodeFrom A 0 (.three (n % 64 % 4)) cs).map
          (byte (bits * 16 + n % 64 / 4) :: ·)
      | .three bits => (decodeFrom A 0 .zero cs).map (byte (bits * 64 + n % 64) :: ·) := by
  have hne : A.sextet n ≠ A.pad := A.digit_ne_pad _
  have hvalue : A.value (A.sextet n) = some (Fin.ofNat 64 n) := A.value_digit _
  cases g with
  | zero | one | two | three =>
    simp only [decodeFrom, if_neg hne, hvalue]
    rfl

theorem byte_eq {a : Byte} {n : ℕ} (h : n = a.val) : byte n = a := by
  subst h
  exact Fin.ofNat_val_eq_self a

/-- **Decoding gives the encoded bytes back.** -/
theorem decode_encode (bs : List Byte) : decode A (encode A bs) = some bs := by
  unfold decode
  induction bs using encode.induct with
  | case1 => rfl
  | case2 a =>
    have ha := a.isLt
    have ha' : byte (a.val / 4 % 64 * 4 + a.val * 16 % 64 / 16) = a := byte_eq (by omega)
    simp only [encode, decodeFrom_sextet, ha']
    simp [decodeFrom]
  | case3 a b =>
    have ha := a.isLt
    have hb := b.isLt
    have ha' : byte (a.val / 4 % 64 * 4 + (a.val * 16 + b.val / 16) % 64 / 16) = a :=
      byte_eq (by omega)
    have hb' : byte ((a.val * 16 + b.val / 16) % 64 % 16 * 16 + b.val * 4 % 64 / 4) = b :=
      byte_eq (by omega)
    simp only [encode, decodeFrom_sextet, ha', hb']
    simp [decodeFrom]
  | case4 a b c bs ih =>
    have ha := a.isLt
    have hb := b.isLt
    have hc := c.isLt
    have ha' : byte (a.val / 4 % 64 * 4 + (a.val * 16 + b.val / 16) % 64 / 16) = a :=
      byte_eq (by omega)
    have hb' : byte ((a.val * 16 + b.val / 16) % 64 % 16 * 16 +
        (b.val * 4 + c.val / 64) % 64 / 4) = b := byte_eq (by omega)
    have hc' : byte ((b.val * 4 + c.val / 64) % 64 % 4 * 64 + c.val % 64) = c := byte_eq (by omega)
    simp only [encode, decodeFrom_sextet, ha', hb', hc', ih, Option.map_some]

/-- Only digits and padding are written. -/
theorem mem_encode {bs : List Byte} {c : Byte} (h : c ∈ encode A bs) :
    c = A.pad ∨ ∃ v, c = A.digit v := by
  have hsextet : ∀ n, ∃ v, A.sextet n = A.digit v := fun n => ⟨_, rfl⟩
  induction bs using encode.induct with
  | case1 => cases h
  | case2 | case3 | case4 =>
    simp only [encode, List.mem_cons, List.not_mem_nil, or_false] at h
    aesop

/-- Nothing is padded when the bytes come in threes. -/
theorem mem_encode_of_dvd {bs : List Byte} (hlen : bs.length % 3 = 0) {c : Byte}
    (h : c ∈ encode A bs) : ∃ v, c = A.digit v := by
  induction bs using encode.induct with
  | case1 => cases h
  | case2 a => cases hlen
  | case3 a b => cases hlen
  | case4 a b c' bs ih =>
    have hlen' : bs.length % 3 = 0 := by
      simp only [List.length_cons] at hlen
      omega
    simp only [encode, List.mem_cons] at h
    rcases h with rfl | rfl | rfl | rfl | h
    · exact ⟨_, rfl⟩
    · exact ⟨_, rfl⟩
    · exact ⟨_, rfl⟩
    · exact ⟨_, rfl⟩
    · exact ih hlen' h

end roundtrip

end Base64

end Encoding
