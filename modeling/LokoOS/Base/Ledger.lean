import Mathlib.Data.Finset.Card
import Mathlib.Data.Finset.SDiff
import Mathlib.Algebra.BigOperators.Group.List.Basic
import Mathlib.Algebra.Ring.Nat

/-!
# Ledger of lent resources

Library `Base`. Units of a finite stock are lent in labelled loans and given back whole.
A loan `r` covers the units `extent r`. The balance says that every unit of the stock is
either free or covered by exactly one loan that is still held, so no unit is lost or lent
twice, whatever the order of the loans.
-/

namespace LokoOS.Base

/-- The free units, and the loans still held, in no significant order. -/
structure Ledger (ι α : Type) where
  free : Finset α
  held : List ι

namespace Ledger

variable {ι α : Type}

/-- Lend the units of `r`. -/
def take [DecidableEq α] (extent : ι → Finset α) (l : Ledger ι α) (r : ι) : Ledger ι α :=
  ⟨l.free \ extent r, r :: l.held⟩

/-- Give the units of `r` back. -/
def give [DecidableEq ι] [DecidableEq α] (extent : ι → Finset α) (l : Ledger ι α) (r : ι) :
    Ledger ι α :=
  ⟨l.free ∪ extent r, l.held.erase r⟩

/-- One loan of free units, or the return of one loan that is held. -/
inductive Step [DecidableEq ι] [DecidableEq α] (extent : ι → Finset α) :
    Ledger ι α → Ledger ι α → Prop
  | take (l : Ledger ι α) (r : ι) (h : extent r ⊆ l.free) : Step extent l (l.take extent r)
  | give (l : Ledger ι α) (r : ι) (h : r ∈ l.held) : Step extent l (l.give extent r)

/-- Every unit of the stock is free or in exactly one held loan. -/
structure Balanced (extent : ι → Finset α) (stock : Finset α) (l : Ledger ι α) : Prop where
  disjoint : l.held.Pairwise fun r r' ↦ Disjoint (extent r) (extent r')
  apart : ∀ r ∈ l.held, Disjoint (extent r) l.free
  mem_iff : ∀ x, x ∈ stock ↔ x ∈ l.free ∨ ∃ r ∈ l.held, x ∈ extent r
  count : l.free.card + (l.held.map fun r ↦ (extent r).card).sum = stock.card

variable {extent : ι → Finset α} {stock : Finset α} {l l' : Ledger ι α}

/-- A ledger with no loans is balanced for its own free units. -/
theorem balanced_nil (free : Finset α) :
    Balanced extent free (⟨free, []⟩ : Ledger ι α) where
  disjoint := List.Pairwise.nil
  apart := by simp
  mem_iff := by simp
  count := by simp

/-- A held loan covers units of the stock. -/
theorem Balanced.subset (h : Balanced extent stock l) {r : ι} (hr : r ∈ l.held) :
    extent r ⊆ stock := fun x hx ↦ (h.mem_iff x).mpr (.inr ⟨r, hr, hx⟩)

/-- The free units belong to the stock. -/
theorem Balanced.free_subset (h : Balanced extent stock l) : l.free ⊆ stock :=
  fun x hx ↦ (h.mem_iff x).mpr (.inl hx)

/-- Lending free units keeps the balance. -/
theorem Balanced.take [DecidableEq α] (h : Balanced extent stock l) {r : ι}
    (hr : extent r ⊆ l.free) :
    Balanced extent stock (l.take extent r) where
  disjoint := by
    refine List.pairwise_cons.mpr ⟨fun r' hr' ↦ ?_, h.disjoint⟩
    exact (Finset.disjoint_of_subset_right hr (h.apart r' hr')).symm
  apart := by
    intro r' hr'
    rcases List.mem_cons.mp hr' with rfl | hm
    · exact Finset.disjoint_sdiff
    · exact Finset.disjoint_of_subset_right Finset.sdiff_subset (h.apart r' hm)
  mem_iff := by
    intro x
    rw [h.mem_iff x]
    simp only [Ledger.take, Finset.mem_sdiff, List.mem_cons, exists_eq_or_imp]
    constructor
    · rintro (hx | hx)
      · by_cases hxr : x ∈ extent r
        · exact .inr (.inl hxr)
        · exact .inl ⟨hx, hxr⟩
      · exact .inr (.inr hx)
    · rintro (⟨hx, -⟩ | hx | hx)
      · exact .inl hx
      · exact .inl (hr hx)
      · exact .inr hx
  count := by
    have hc := h.count
    have hs := Finset.card_sdiff_add_card_eq_card hr
    simp only [Ledger.take, List.map_cons, List.sum_cons]
    omega

/-- Giving a held loan back keeps the balance. -/
theorem Balanced.give [DecidableEq ι] [DecidableEq α] (h : Balanced extent stock l) {r : ι}
    (hr : r ∈ l.held) :
    Balanced extent stock (l.give extent r) := by
  have hp := List.perm_cons_erase hr
  have hd : (r :: l.held.erase r).Pairwise fun r r' ↦ Disjoint (extent r) (extent r') :=
    (hp.pairwise_iff fun {a b} hab ↦ hab.symm).mp h.disjoint
  rw [List.pairwise_cons] at hd
  refine ⟨hd.2, ?_, ?_, ?_⟩
  · intro r' hr'
    have hf := h.apart r' (List.mem_of_mem_erase hr')
    exact Finset.disjoint_union_right.mpr ⟨hf, (hd.1 r' hr').symm⟩
  · intro x
    have hm (y : ι) : y ∈ l.held ↔ y = r ∨ y ∈ l.held.erase r := by
      rw [hp.mem_iff, List.mem_cons]
    simp only [h.mem_iff x, Ledger.give, Finset.mem_union, hm, exists_eq_or_imp, or_assoc]
  · have hc := h.count
    have hu : (l.free ∪ extent r).card = l.free.card + (extent r).card :=
      Finset.card_union_of_disjoint (h.apart r hr).symm
    have hsum := (hp.map fun r ↦ (extent r).card).sum_eq
    simp only [List.map_cons, List.sum_cons] at hsum
    simp only [Ledger.give]
    omega

/-- One step keeps the balance. -/
theorem Balanced.step [DecidableEq ι] [DecidableEq α] (h : Balanced extent stock l)
    (hs : Step extent l l') :
    Balanced extent stock l' := by
  cases hs with
  | take r hr => exact h.take hr
  | give r hr => exact h.give hr

end Ledger
end LokoOS.Base
