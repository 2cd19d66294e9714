import Mathlib.Algebra.GroupWithZero.Nat
import Mathlib.Data.List.DropRight
import Mathlib.Data.List.Forall2

/-!
# Python strings

A `str` is a sequence of code points, lone surrogates included.  The methods the
code uses are defined on such sequences; what depends on the Unicode tables is
the class `Unicode`, with the properties of those tables the code relies on.

## Main definitions

* `CodePoint`, `Str` — code points and strings.
* `Str.strip`, `Str.stripChars`, `Str.remove` — `strip()`, `strip(chars)` and
  `replace(pat, "")`.
* `Str.encodable`, `Str.isLatin1` — what UTF-8 and Latin-1 can encode.
* `Unicode`, `Str.lower` — the Unicode tables and `lower()`.

## Main results

* `Str.strip_lower_strip` — lower-casing a stripped string leaves it stripped.
-/

namespace FastapiStarter

/-- A code point; the surrogates are code points too. -/
abbrev CodePoint := Fin 1114112

instance neZeroCodePoint : NeZero 1114112 := ⟨by decide⟩

/-- A Python string. -/
abbrev Str := List CodePoint

/-- The code point of a character. -/
def ch (c : Char) : CodePoint := Fin.ofNat 1114112 c.toNat

/-- The string with the given characters. -/
def lit (cs : List Char) : Str := cs.map ch

/-- The characters `str.isspace` accepts, which `strip()` removes and `\s` matches. -/
def isSpace (c : CodePoint) : Bool :=
  [9, 10, 11, 12, 13, 28, 29, 30, 31, 32, 133, 160, 5760, 8192, 8193, 8194, 8195, 8196, 8197,
    8198, 8199, 8200, 8201, 8202, 8232, 8233, 8239, 8287, 12288].contains c.val

namespace Str

/-- `s.strip()`. -/
def strip (s : Str) : Str := (s.dropWhile isSpace).rdropWhile isSpace

/-- `s.strip(chars)`. -/
def stripChars (chars : Str) (s : Str) : Str :=
  (s.dropWhile fun c => chars.contains c).rdropWhile fun c => chars.contains c

/-- `s.replace(pat, "")`, with the characters of a match still to be skipped. -/
def removeAux (pat : Str) : ℕ → Str → Str
  | _, [] => []
  | skip + 1, _ :: s => removeAux pat skip s
  | 0, c :: s =>
    if pat.isPrefixOf (c :: s) then removeAux pat (pat.length - 1) s else c :: removeAux pat 0 s

/-- `s.replace(pat, "")`, for a pattern that is not empty. -/
def remove (pat : Str) (s : Str) : Str := removeAux pat 0 s

/-! ### Encodings -/

/-- `s.encode("utf-8")` does not raise: no surrogate is alone. -/
def encodable (s : Str) : Bool := s.all fun c => c.val < 0xD800 || 0xDFFF < c.val

/-- `s.encode("latin-1")` does not raise. -/
def isLatin1 (s : Str) : Bool := s.all fun c => c.val < 256

@[simp] theorem encodable_append (s t : Str) :
    (s ++ t : Str).encodable = (s.encodable && t.encodable) := List.all_append

/-- A character is no surrogate. -/
@[simp] theorem encodable_lit (cs : List Char) : (lit cs).encodable = true := by
  rw [encodable, lit, List.all_map, List.all_eq_true]
  intro c _
  have hvalid : c.toNat < 0xD800 ∨ 0xDFFF < c.toNat ∧ c.toNat < 0x110000 := c.valid
  have hval : (ch c).val = c.toNat := Nat.mod_eq_of_lt (by omega)
  simp only [Function.comp_apply, hval, Bool.or_eq_true, decide_eq_true_eq]
  omega

/-! ### Stripped strings -/

/-- A string that neither starts nor ends with whitespace. -/
def Trimmed (s : Str) : Prop :=
  (∀ c ∈ s.head?, isSpace c = false) ∧ ∀ c ∈ s.getLast?, isSpace c = false

theorem trimmed_strip (s : Str) : Trimmed s.strip := by
  have hlast : ∀ c ∈ s.strip.getLast?, isSpace c = false := by
    intro c hc
    obtain ⟨hne, rfl⟩ := List.mem_getLast?_eq_getLast hc
    have := List.rdropWhile_last_not isSpace _ hne
    simpa [strip] using this
  refine ⟨fun c hc => ?_, hlast⟩
  -- What is left of the front after stripping the back starts where the front does.
  obtain ⟨t, ht⟩ : s.strip <+: s.dropWhile isSpace := List.rdropWhile_prefix ..
  have hhead : c ∈ (s.dropWhile isSpace).head? := by
    rw [← ht, List.head?_append]
    simp [Option.mem_def.mp hc]
  have := List.head?_dropWhile_not isSpace s
  rw [Option.mem_def.mp hhead] at this
  simpa using this

theorem strip_of_trimmed {s : Str} (h : Trimmed s) : s.strip = s := by
  have hfront : s.dropWhile isSpace = s := by
    cases s with
    | nil => rfl
    | cons c s => simp [h.1 c (by simp)]
  rw [strip, hfront, List.rdropWhile_eq_self_iff]
  intro hne
  simp [h.2 _ (List.getLast_mem_getLast? hne)]

end Str

/-! ### Lower-casing -/

/-- The characters with a meaning for an address, which case does not touch. -/
def isSpecial (c : CodePoint) : Bool := isSpace c || c == ch '@' || c == ch '.'

/-- `img` is a possible lower-case image of `c`: characters without case keep
their places, and no image is empty or brings in one of them. -/
structure LowerImage (c : CodePoint) (img : Str) : Prop where
  /-- No character disappears. -/
  ne_nil : img ≠ []
  /-- A special character is its own image. -/
  special : isSpecial c = true → img = [c]
  /-- No other character becomes one. -/
  plain : isSpecial c = false → ∀ d ∈ img, isSpecial d = false

/-- The Unicode tables, as far as the code uses them.  Lower-casing depends on
the context of a character (a final sigma), so the images are those of the
characters of one string. -/
class Unicode where
  /-- The lower-case images of the characters of a string. -/
  lowerImages : Str → List Str
  /-- Each character has one image. -/
  lowerImages_spec : ∀ s, List.Forall₂ LowerImage s (lowerImages s)
  /-- Lower-casing is idempotent. -/
  lower_idem : ∀ s, (lowerImages (lowerImages s).flatten).flatten = (lowerImages s).flatten
  /-- The decimal value of a digit outside ASCII. -/
  decimal : CodePoint → Option (Fin 10)

/-- Lower-casing of an ASCII letter; other characters have no case here. -/
def asciiLower (c : CodePoint) : CodePoint :=
  if h : 65 ≤ c.val ∧ c.val ≤ 90 then ⟨c.val + 32, by omega⟩ else c

@[simp] theorem asciiLower_idem (c : CodePoint) : asciiLower (asciiLower c) = asciiLower c := by
  by_cases h : 65 ≤ c.val ∧ c.val ≤ 90
  · have hc : asciiLower c = ⟨c.val + 32, by omega⟩ := dif_pos h
    rw [hc]
    exact dif_neg (by simp only; omega)
  · have hc : asciiLower c = c := dif_neg h
    rw [hc, hc]

theorem isSpecial_eq_false {c : CodePoint} (h : 65 ≤ c.val) (h' : c.val ≤ 122) :
    isSpecial c = false := by
  have hc : ∀ n ≤ 64, c.val ≠ n := fun n hn hcn => by omega
  have hc' : ∀ n ≥ 123, c.val ≠ n := fun n hn hcn => by omega
  have hat : c ≠ ch '@' := fun heq => hc 64 (by omega) (congrArg Fin.val heq)
  have hdot : c ≠ ch '.' := fun heq => hc 46 (by omega) (congrArg Fin.val heq)
  simp [isSpecial, isSpace, hat, hdot, hc, hc']

theorem lowerImage_asciiLower (c : CodePoint) : LowerImage c [asciiLower c] := by
  by_cases h : 65 ≤ c.val ∧ c.val ≤ 90
  · have hc : asciiLower c = ⟨c.val + 32, by omega⟩ := dif_pos h
    have himg : isSpecial (asciiLower c) = false := by
      rw [hc]
      exact isSpecial_eq_false (by simp only; omega) (by simp only; omega)
    have hspecial := isSpecial_eq_false h.1 (by omega)
    exact ⟨List.cons_ne_nil _ _, by simp [hspecial], by simp [himg]⟩
  · have hc : asciiLower c = c := dif_neg h
    rw [hc]
    exact ⟨List.cons_ne_nil _ _, fun _ => rfl, by simp⟩

/-- Tables that know the case of ASCII letters only. -/
@[reducible] def asciiUnicode : Unicode where
  lowerImages s := s.map fun c => [asciiLower c]
  lowerImages_spec s := by
    induction s with
    | nil => exact .nil
    | cons c s ih => exact .cons (lowerImage_asciiLower c) ih
  lower_idem s := by
    induction s with
    | nil => rfl
    | cons c s ih =>
      simp only [List.map_cons, List.flatten_cons, List.singleton_append, asciiLower_idem]
      rw [ih]
  decimal _ := none

namespace Str

theorem isSpace_of_lowerImage {c d : CodePoint} {img : Str} (h : LowerImage c img)
    (hc : isSpace c = false) (hd : d ∈ img) : isSpace d = false := by
  by_cases hs : isSpecial c = true
  · rw [h.special hs, List.mem_singleton] at hd
    rw [hd, hc]
  · have := h.plain (by simpa using hs) d hd
    simp only [isSpecial, Bool.or_eq_false_iff] at this
    exact this.1.1

/-- The last character of the images comes from the last character. -/
theorem isSpace_getLast_images {s : Str} {imgs : List Str} (h : List.Forall₂ LowerImage s imgs)
    (hs : ∀ c ∈ s.getLast?, isSpace c = false) :
    (s ≠ [] → imgs.flatten ≠ []) ∧ ∀ d ∈ imgs.flatten.getLast?, isSpace d = false := by
  induction h with
  | nil => simp
  | @cons c img s imgs hc htail ih =>
    refine ⟨fun _ => by simp [hc.ne_nil], ?_⟩
    intro d hd
    rcases s with _ | ⟨c', s⟩
    · cases htail
      simp only [List.flatten_cons, List.flatten_nil, List.append_nil] at hd
      exact isSpace_of_lowerImage hc (hs c (by simp)) (List.mem_of_getLast? hd)
    · obtain ⟨hne, hlast⟩ := ih fun d hd => hs d (by simpa using hd)
      rw [List.flatten_cons, List.getLast?_append_of_ne_nil _ (hne (by simp))] at hd
      exact hlast d hd

variable [Unicode]

/-- `s.lower()`. -/
def lower (s : Str) : Str := (Unicode.lowerImages s).flatten

theorem lower_lower (s : Str) : s.lower.lower = s.lower := Unicode.lower_idem s

theorem trimmed_lower {s : Str} (h : Trimmed s) : Trimmed s.lower := by
  have himgs := Unicode.lowerImages_spec s
  refine ⟨?_, (isSpace_getLast_images himgs h.2).2⟩
  unfold lower
  generalize Unicode.lowerImages s = imgs at himgs
  cases himgs with
  | nil => simp
  | @cons c img s imgs hc _ =>
    intro d hd
    rw [List.flatten_cons, List.head?_append_of_ne_nil _ hc.ne_nil] at hd
    exact isSpace_of_lowerImage hc (h.1 c (by simp)) (List.mem_of_head? hd)

/-- **Lower-casing a stripped string leaves it stripped.** -/
theorem strip_lower_strip (s : Str) : s.strip.lower.strip = s.strip.lower :=
  strip_of_trimmed (trimmed_lower (trimmed_strip s))

end Str

end FastapiStarter
