import Mathlib.Algebra.Ring.Nat

/-!
# Text

A string is the list of its characters. Lengths and offsets count the bytes of its UTF-8
encoding; an offset inside a character, or past the end, does not split a string.
-/

namespace LokoOS.Base

/-- A string. -/
abbrev Text : Type := List Char

namespace Text

/-- Length in bytes. -/
def len (s : Text) : Nat := (s.map Char.utf8Size).sum

/-- The parts before and after a byte offset, if it is a character boundary. -/
def splitAt : Text → Nat → Option (Text × Text)
  | s, 0 => some ([], s)
  | [], _ + 1 => none
  | c :: s, n + 1 =>
    if c.utf8Size ≤ n + 1 then
      (splitAt s (n + 1 - c.utf8Size)).map fun parts ↦ (c :: parts.1, parts.2)
    else none

/-- Every character is ASCII. -/
def isAscii (s : Text) : Bool := s.all fun c ↦ c.toNat < 128

/-- The string with its ASCII letters in lower case. -/
def lower (s : Text) : Text := s.map Char.toLower

/-- Equality up to the case of ASCII letters. -/
def eqIgnoreAsciiCase (s t : Text) : Bool := lower s == lower t

/-- Remove a leading character. -/
def stripPrefix (c : Char) : Text → Option Text
  | [] => none
  | d :: s => if d = c then some s else none

/-- Remove a trailing character. -/
def stripSuffix (c : Char) (s : Text) : Option Text :=
  if s.getLast? = some c then some s.dropLast else none

/-- Byte offset of the last occurrence of a character. -/
def rfind (c : Char) : Text → Option Nat
  | [] => none
  | d :: s =>
    match rfind c s with
    | some i => some (d.utf8Size + i)
    | none => if d = c then some 0 else none

variable {s t u : Text} {c d : Char} {n : Nat}

/-! ### Byte offsets -/

/-- Length of the empty string. -/
@[simp] theorem len_nil : len [] = 0 := rfl

/-- Length of a string with a first character. -/
@[simp] theorem len_cons : len (c :: s) = c.utf8Size + len s := rfl

/-- Length of two strings together. -/
@[simp] theorem len_append : len (s ++ t) = len s + len t := by simp [len]

/-- A string splits where its parts meet. -/
theorem splitAt_append : splitAt (s ++ t) (len s) = some (s, t) := by
  induction s with
  | nil => rw [List.nil_append, len_nil, splitAt]
  | cons c s ih =>
    have hpos := c.utf8Size_pos
    have hlen : len (c :: s) = c.utf8Size + len s - 1 + 1 := by
      rw [len_cons]
      omega
    have hrest : c.utf8Size + len s - 1 + 1 - c.utf8Size = len s := by omega
    rw [hlen, List.cons_append, splitAt, if_pos (by omega), hrest, ih]
    rfl

/-- A split gives the parts of the string, the first as long as the offset. -/
theorem eq_of_splitAt (h : splitAt s n = some (t, u)) : s = t ++ u ∧ len t = n := by
  induction s, n using splitAt.induct generalizing t with
  | case1 s =>
    rw [splitAt] at h
    cases h
    exact ⟨rfl, rfl⟩
  | case2 n => cases h
  | case3 c s n hle ih =>
    rw [splitAt, if_pos hle, Option.map_eq_some_iff] at h
    rcases h with ⟨⟨a, b⟩, hab, he⟩
    cases he
    rcases ih hab with ⟨rfl, hn⟩
    constructor
    · rfl
    · rw [len_cons, hn]
      omega
  | case4 c s n hlt =>
    rw [splitAt, if_neg hlt] at h
    cases h

/-- A string splits at an offset exactly when its parts meet there. -/
theorem splitAt_eq_some : splitAt s n = some (t, u) ↔ s = t ++ u ∧ len t = n := by
  constructor
  · exact eq_of_splitAt
  · rintro ⟨rfl, rfl⟩
    exact splitAt_append

/-- A character that does not occur is not found. -/
theorem rfind_eq_none : rfind c s = none ↔ c ∉ s := by
  induction s with
  | nil => simp [rfind]
  | cons d s ih =>
    rw [rfind, List.mem_cons]
    cases hi : rfind c s with
    | some i =>
      have hs : c ∈ s := Decidable.of_not_not fun hn ↦ by
        rw [ih.mpr hn] at hi
        cases hi
      simp [hs]
    | none =>
      have hs := ih.mp hi
      by_cases hd : d = c
      · simp [hd]
      · simp [hd, hs, Ne.symm hd]

/-- The last occurrence is found at the length of what precedes it. -/
theorem rfind_append_cons (h : c ∉ t) : rfind c (s ++ c :: t) = some (len s) := by
  induction s with
  | nil =>
    rw [List.nil_append, rfind, rfind_eq_none.mpr h]
    simp
  | cons d s ih => rw [List.cons_append, rfind, ih, len_cons]

/-! ### Leading and trailing characters -/

/-- A leading character is removed. -/
theorem stripPrefix_cons : stripPrefix c (c :: s) = some s := if_pos rfl

/-- Removal of a leading character from a string that has one. -/
theorem stripPrefix_eq_some : stripPrefix c s = some t ↔ s = c :: t := by
  cases s with
  | nil => simp [stripPrefix]
  | cons d s =>
    rw [stripPrefix, List.cons.injEq]
    split <;> simp [*]

/-- A trailing character is removed. -/
theorem stripSuffix_concat : stripSuffix c (s ++ [c]) = some s := by
  simp [stripSuffix]

/-- Nothing is removed from a string that ends otherwise. -/
theorem stripSuffix_eq_none : stripSuffix c s = none ↔ s.getLast? ≠ some c := by
  simp [stripSuffix]

/-- Removal of a trailing character from a string that has one. -/
theorem stripSuffix_eq_some : stripSuffix c s = some t ↔ s = t ++ [c] := by
  constructor
  · intro h
    unfold stripSuffix at h
    split at h
    · next hlast =>
      cases h
      rw [List.getLast?_eq_some_iff] at hlast
      rcases hlast with ⟨ys, rfl⟩
      rw [List.dropLast_concat]
    · cases h
  · intro h
    rw [h, stripSuffix_concat]

/-! ### Case -/

/-- Lower case of a string with a first character. -/
@[simp] theorem lower_cons : lower (c :: s) = c.toLower :: lower s := rfl

/-- Equality up to case is equality in lower case. -/
theorem eqIgnoreAsciiCase_iff : eqIgnoreAsciiCase s t = true ↔ lower s = lower t := by
  rw [eqIgnoreAsciiCase, beq_iff_eq]

/-- Code point of a character in lower case. -/
theorem toNat_toLower (c : Char) : c.toLower.toNat =
    if 65 ≤ c.toNat ∧ c.toNat ≤ 90 then c.toNat + 32 else c.toNat := by
  unfold Char.toLower
  have hA : 'A'.val = 65 := rfl
  have hZ : 'Z'.val = 90 := rfl
  split
  · next h =>
    simp only [hA, hZ, ge_iff_le, UInt32.le_iff_toNat_le] at h
    change 65 ≤ c.toNat ∧ c.toNat ≤ 90 at h
    rw [if_pos h]
    change (c.val + ('a'.val - 'A'.val)).toNat = _
    rw [UInt32.toNat_add]
    change (c.toNat + 32) % 2 ^ 32 = _
    omega
  · next h =>
    simp only [hA, hZ, ge_iff_le, UInt32.le_iff_toNat_le] at h
    change ¬ (65 ≤ c.toNat ∧ c.toNat ≤ 90) at h
    rw [if_neg h]

/-- Bytes of a character in the encoding. -/
theorem utf8Size_eq (c : Char) : c.utf8Size =
    if c.toNat ≤ 127 then 1 else if c.toNat ≤ 2047 then 2 else
      if c.toNat ≤ 65535 then 3 else 4 := by
  unfold Char.utf8Size
  simp only [UInt32.le_iff_toNat_le]
  rfl

/-- A letter and its lower case take the same number of bytes. -/
theorem utf8Size_toLower (c : Char) : c.toLower.utf8Size = c.utf8Size := by
  rw [utf8Size_eq, utf8Size_eq, toNat_toLower]
  split
  · rw [if_pos (by omega), if_pos (by omega)]
  · rfl

/-- Strings that are equal up to case are equally long. -/
theorem len_lower (s : Text) : len (lower s) = len s := by
  induction s with
  | nil => rfl
  | cons c s ih => rw [lower_cons, len_cons, len_cons, utf8Size_toLower, ih]

/-- ASCII strings are those whose characters all take one byte. -/
theorem isAscii_iff : isAscii s = true ↔ ∀ c ∈ s, c.toNat < 128 := by
  simp [isAscii]

/-- Strings that are equal up to case are ASCII together. -/
theorem isAscii_lower (s : Text) : isAscii (lower s) = isAscii s := by
  rw [Bool.eq_iff_iff, isAscii_iff, isAscii_iff]
  simp only [lower, List.mem_map, forall_exists_index, and_imp, forall_apply_eq_imp_iff₂,
    toNat_toLower]
  apply forall₂_congr
  intro c _
  split <;> omega

end Text
end LokoOS.Base
