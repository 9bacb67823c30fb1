import Mathlib.Algebra.BigOperators.Group.List.Basic
import Mathlib.Algebra.Ring.Nat
import Mathlib.Data.Nat.Count
import Mathlib.Order.Interval.Finset.Nat

/-!
# Counting below a bound

Library `Base`. How many numbers below a bound have a property: block by block, when the
property only depends on the block, and interval by interval, when the numbers with the
property make up intervals in order.
-/

namespace LokoOS.Base

variable {α : Type}

/-- Where the property of a number is one of its block, whole blocks are counted. -/
theorem count_blocks (p : Nat → Prop) [DecidablePred p] (n : Nat) {k : Nat} (hk : 0 < k) :
    Nat.count (fun b ↦ p (b / k)) (n * k) = Nat.count p n * k := by
  induction n with
  | zero => rw [Nat.zero_mul, Nat.count_zero, Nat.count_zero, Nat.zero_mul]
  | succ n ih =>
    have hdiv {j : Nat} (hj : j < k) : (n * k + j) / k = n := by
      rw [Nat.mul_comm, Nat.mul_add_div hk, Nat.div_eq_of_lt hj, Nat.add_zero]
    rw [Nat.succ_mul, Nat.count_add, ih, Nat.count_succ, Nat.add_mul]
    congr 1
    by_cases hp : p n
    · rw [if_pos hp, Nat.one_mul]
      apply Nat.count_of_forall
      intro j hj
      rw [hdiv hj]
      exact hp
    · rw [if_neg hp, Nat.zero_mul]
      apply Nat.count_of_forall_not
      intro j hj
      rw [hdiv hj]
      exact hp

/-- The numbers of one interval are counted by its length. -/
theorem count_interval {start len n : Nat} (h : start + len ≤ n) :
    Nat.count (fun b ↦ start ≤ b ∧ b < start + len) n = len := by
  rw [Nat.count_eq_card_filter_range]
  have hset : (Finset.range n).filter (fun b ↦ start ≤ b ∧ b < start + len) =
      Finset.Ico start (start + len) := by
    ext b
    rw [Finset.mem_filter, Finset.mem_range, Finset.mem_Ico]
    omega
  rw [hset, Nat.card_Ico]
  omega

/-- Two properties that exclude each other are counted apart. -/
theorem count_or (p q : Nat → Prop) [DecidablePred p] [DecidablePred q] {n : Nat}
    (h : ∀ b, p b → ¬ q b) :
    Nat.count (fun b ↦ p b ∨ q b) n = Nat.count p n + Nat.count q n := by
  rw [Nat.count_eq_card_filter_range, Nat.count_eq_card_filter_range,
    Nat.count_eq_card_filter_range, Finset.filter_or]
  apply Finset.card_union_of_disjoint
  apply Finset.disjoint_filter.mpr
  exact fun b _ hb ↦ h b hb

/-- The numbers of intervals that follow each other are counted by the sum of the lengths. -/
theorem count_intervals (start len : α → Nat) {l : List α} {n : Nat}
    (horder : l.Pairwise fun i j ↦ start i + len i ≤ start j)
    (hbound : ∀ i ∈ l, start i + len i ≤ n) :
    Nat.count (fun b ↦ ∃ i ∈ l, start i ≤ b ∧ b < start i + len i) n = (l.map len).sum := by
  induction l with
  | nil =>
    apply Nat.count_of_forall_not
    simp
  | cons i l ih =>
    rw [List.pairwise_cons] at horder
    have hi := count_interval (hbound i List.mem_cons_self)
    have hl := ih horder.2 fun j hj ↦ hbound j (List.mem_cons_of_mem i hj)
    have hapart : ∀ b, start i ≤ b ∧ b < start i + len i →
        ¬ ∃ j ∈ l, start j ≤ b ∧ b < start j + len j := by
      rintro b hb ⟨j, hj, hbj⟩
      have hij := horder.1 j hj
      omega
    calc Nat.count (fun b ↦ ∃ j ∈ i :: l, start j ≤ b ∧ b < start j + len j) n
        = Nat.count (fun b ↦ (start i ≤ b ∧ b < start i + len i) ∨
            ∃ j ∈ l, start j ≤ b ∧ b < start j + len j) n := by
          simp only [List.mem_cons, exists_eq_or_imp]
      _ = len i + (l.map len).sum := by rw [count_or _ _ hapart, hi, hl]
      _ = ((i :: l).map len).sum := by rw [List.map_cons, List.sum_cons]

end LokoOS.Base
