import Mathlib.Data.List.Chain

/-!
# Parts joined by a separator

Library `Base`. A list of parts is written out with one separator between neighbours. When
no part is empty or holds the separator, the written form ends inside a part and splitting it
gives the parts back.
-/

namespace LokoOS.Base

variable {α : Type}

/-- What can stand between separators: something, without the separator in it. -/
def IsPart (sep : α) (part : List α) : Prop := part ≠ [] ∧ sep ∉ part

/-- The parts with a separator between neighbours. -/
def joined (sep : α) (parts : List (List α)) : List α := [sep].intercalate parts

variable {sep : α} {part : List α} {parts : List (List α)}

/-- No parts, nothing written. -/
@[simp] theorem joined_nil : joined sep [] = [] := rfl

/-- One part is written without separators. -/
@[simp] theorem joined_singleton : joined sep [part] = part := List.intercalate_singleton

/-- A first part is followed by a separator unless it is also the last. -/
theorem joined_cons (h : parts ≠ []) :
    joined sep (part :: parts) = part ++ sep :: joined sep parts := by
  unfold joined
  rw [List.intercalate_cons_of_ne_nil h, List.append_assoc]
  rfl

/-- A last part is preceded by a separator unless it is also the first. -/
theorem joined_concat (h : parts ≠ []) :
    joined sep (parts ++ [part]) = joined sep parts ++ sep :: part := by
  induction parts with
  | nil => exact absurd rfl h
  | cons p ps ih =>
    cases ps with
    | nil => rw [List.singleton_append, joined_cons (by simp), joined_singleton, joined_singleton]
    | cons q qs =>
      have hne : q :: qs ≠ [] := List.cons_ne_nil q qs
      rw [List.cons_append, joined_cons (List.append_ne_nil_of_left_ne_nil hne _), ih hne,
        joined_cons hne, List.append_assoc, List.cons_append]

/-- What occurs in the written form is the separator or occurs in a part. -/
theorem mem_joined {a : α} (h : a ∈ joined sep parts) : a = sep ∨ ∃ part ∈ parts, a ∈ part := by
  induction parts with
  | nil => cases h
  | cons p ps ih =>
    cases ps with
    | nil =>
      rw [joined_singleton] at h
      exact .inr ⟨p, List.mem_cons_self, h⟩
    | cons q qs =>
      rw [joined_cons (List.cons_ne_nil q qs), List.mem_append, List.mem_cons] at h
      rcases h with hp | hsep | hrest
      · exact .inr ⟨p, List.mem_cons_self, hp⟩
      · exact .inl hsep
      · rcases ih hrest with hsep | ⟨part, hpart, ha⟩
        · exact .inl hsep
        · exact .inr ⟨part, List.mem_cons_of_mem p hpart, ha⟩

/-- Only the empty list of parts writes nothing. -/
theorem joined_eq_nil (h : ∀ part ∈ parts, IsPart sep part) :
    joined sep parts = [] ↔ parts = [] := by
  constructor
  · intro hj
    cases parts with
    | nil => rfl
    | cons p ps =>
      have hp : p ≠ [] := (h p (List.mem_cons_self)).1
      cases ps with
      | nil => exact absurd (joined_singleton.symm.trans hj) hp
      | cons q qs =>
        rw [joined_cons (by simp)] at hj
        exact absurd (List.append_eq_nil_iff.mp hj).1 hp
  · intro hp
    rw [hp, joined_nil]

/-- The written form does not end with a separator. -/
theorem getLast?_joined (h : ∀ part ∈ parts, IsPart sep part) :
    (joined sep parts).getLast? ≠ some sep := by
  induction parts with
  | nil => simp
  | cons p ps ih =>
    cases ps with
    | nil =>
      rw [joined_singleton]
      intro hs
      exact (h p List.mem_cons_self).2 (List.mem_of_getLast? hs)
    | cons q qs =>
      have hrest := fun part hp ↦ h part (List.mem_cons_of_mem p hp)
      have hne : joined sep (q :: qs) ≠ [] := fun hn ↦ by cases (joined_eq_nil hrest).mp hn
      rw [joined_cons (by simp), List.append_cons, List.getLast?_append,
        List.getLast?_eq_some_getLast hne, Option.some_or, ← List.getLast?_eq_some_getLast hne]
      exact ih hrest

/-! ### Adjacent separators -/

/-- No two neighbours are both the separator. -/
def Spaced (sep : α) (s : List α) : Prop := s.IsChain fun a b ↦ a = sep → b ≠ sep

/-- A list with two separators in a row is not spaced. -/
theorem Spaced.not_infix {s : List α} (h : Spaced sep s) : ¬ [sep, sep] <:+: s := by
  intro hs
  have hpair := List.IsChain.infix h hs
  rw [List.isChain_cons_cons] at hpair
  exact hpair.1 rfl rfl

/-- A list without the separator is spaced. -/
theorem spaced_of_notMem {s : List α} (h : sep ∉ s) : Spaced sep s := by
  induction s with
  | nil => exact List.isChain_nil
  | cons a s ih =>
    apply List.isChain_cons.mpr
    constructor
    · intro b _ ha
      exact absurd (ha ▸ List.mem_cons_self) h
    · exact ih fun hs ↦ h (List.mem_cons_of_mem a hs)

/-- The written form does not begin with a separator. -/
theorem head?_joined (h : ∀ part ∈ parts, IsPart sep part) :
    (joined sep parts).head? ≠ some sep := by
  cases parts with
  | nil => simp
  | cons p ps =>
    have hp := h p List.mem_cons_self
    have hhead : p.head? ≠ some sep := fun hs ↦ hp.2 (List.mem_of_head? hs)
    by_cases hps : ps = []
    · rw [hps, joined_singleton]
      exact hhead
    · rw [joined_cons hps, List.head?_append, List.head?_eq_some_head hp.1, Option.some_or,
        ← List.head?_eq_some_head hp.1]
      exact hhead

/-- A separator before a spaced list that does not begin with one. -/
theorem Spaced.cons {s : List α} (h : Spaced sep s) (hhead : s.head? ≠ some sep) :
    Spaced sep (sep :: s) := by
  apply List.isChain_cons.mpr
  constructor
  · intro b hb _ hsep
    exact hhead (hsep ▸ hb)
  · exact h

/-- Spaced lists stay spaced together when the first does not end with a separator. -/
theorem Spaced.append {s t : List α} (hs : Spaced sep s) (ht : Spaced sep t)
    (hlast : s.getLast? ≠ some sep) : Spaced sep (s ++ t) := by
  apply List.isChain_append.mpr
  refine ⟨hs, ht, ?_⟩
  intro a ha b _ hsep
  exact absurd (hsep ▸ ha) hlast

/-- The written form has no two separators in a row. -/
theorem spaced_joined (h : ∀ part ∈ parts, IsPart sep part) : Spaced sep (joined sep parts) := by
  induction parts with
  | nil => exact List.isChain_nil
  | cons p ps ih =>
    have hp := spaced_of_notMem (h p List.mem_cons_self).2
    have hrest : ∀ part ∈ ps, IsPart sep part := fun part hpart ↦
      h part (List.mem_cons_of_mem p hpart)
    by_cases hps : ps = []
    · rw [hps, joined_singleton]
      exact hp
    · rw [joined_cons hps]
      apply hp.append
      · exact (ih hrest).cons (head?_joined hrest)
      · exact fun hs ↦ (h p List.mem_cons_self).2 (List.mem_of_getLast? hs)

variable [BEq α] [LawfulBEq α]

/-- Splitting a list gives parts that write it. -/
theorem joined_splitOn (sep : α) (s : List α) : joined sep (s.splitOn sep) = s :=
  List.intercalate_splitOn sep

/-- Splitting the written form gives the parts back, except that nothing is split into one
empty part. -/
theorem splitOn_joined (h : ∀ part ∈ parts, IsPart sep part) :
    (joined sep parts).splitOn sep = if parts = [] then [[]] else parts := by
  split
  · next hp =>
    rw [hp]
    rfl
  · next hp => exact List.splitOn_intercalate sep (fun part hpart ↦ (h part hpart).2) hp

/-- Leaving out empty pieces, splitting the written form gives the parts back. -/
theorem filter_splitOn_joined [DecidableEq α] (h : ∀ part ∈ parts, IsPart sep part) :
    ((joined sep parts).splitOn sep).filter (· ≠ []) = parts := by
  rw [splitOn_joined h]
  split
  · next hp => rw [hp]; rfl
  · apply List.filter_eq_self.mpr
    intro part hpart
    exact decide_eq_true (h part hpart).1

/-- Leaving out empty pieces, all after the first piece of the written form are all after the
first part. -/
theorem filter_tail_splitOn_joined [DecidableEq α] (h : ∀ part ∈ parts, IsPart sep part) :
    ((joined sep parts).splitOn sep).tail.filter (· ≠ []) = parts.tail := by
  rw [splitOn_joined h]
  split
  · next hp => rw [hp]; rfl
  · apply List.filter_eq_self.mpr
    intro part hpart
    exact decide_eq_true (h part (List.mem_of_mem_tail hpart)).1

end LokoOS.Base
