import LokoOS.Memory.FrameAllocator
import Mathlib.Data.Finset.Card
import Mathlib.Data.Finset.SDiff
import Mathlib.Order.Interval.Finset.Nat

/-!
# The set of free frames

The allocator's bitmap seen as a finite set of free frames, the representation invariant
that ties the bitmap, the running count and the cursor together, and the effect of each
operation on that set. Every operation is described by `Becomes`: the range is the same,
the invariant holds again, bits past the range are untouched and the free set is given.
-/

namespace LokoOS.Memory
open LokoOS.Base

namespace FrameAllocator

/-- Bit `i` of the bitmap, with no panic. -/
def bit (a : FrameAllocator) (i : Nat) : Bool := (a.bitmap.getD (i / 64) 0#64).getLsbD (i % 64)

/-- The managed frames. -/
def managed (a : FrameAllocator) : Finset Nat := Finset.Ico a.base (a.base + a.frames)

/-- The managed frames whose bit is clear. -/
def freeSet (a : FrameAllocator) : Finset Nat :=
  a.managed.filter fun f ↦ a.bit (f - a.base) = false

/-- The representation invariant. -/
structure WF (a : FrameAllocator) : Prop where
  covered : a.frames ≤ 64 * a.bitmap.length
  bounded : a.base + a.frames ≤ 2 ^ 52
  counted : a.allocated + a.freeSet.card = a.frames
  cursor_le : a.cursor ≤ a.frames

/-- The allocator `a` has become `a'`, and `free` is now its free set. -/
structure Becomes (a a' : FrameAllocator) (free : Finset Nat) : Prop where
  wf : a'.WF
  base_eq : a'.base = a.base
  frames_eq : a'.frames = a.frames
  freeSet_eq : a'.freeSet = free
  beyond : ∀ i, a.frames ≤ i → a'.bit i = a.bit i

/-- Membership in the managed range. -/
theorem mem_managed {a : FrameAllocator} {f : Nat} :
    f ∈ a.managed ↔ a.base ≤ f ∧ f < a.base + a.frames := by
  simp [managed]

/-- Membership in the free set. -/
theorem mem_freeSet {a : FrameAllocator} {f : Nat} :
    f ∈ a.freeSet ↔ (a.base ≤ f ∧ f < a.base + a.frames) ∧ a.bit (f - a.base) = false := by
  simp [freeSet, managed]

/-- A managed index is free exactly when its bit is clear. -/
theorem base_add_mem_freeSet {a : FrameAllocator} {i : Nat} :
    a.base + i ∈ a.freeSet ↔ i < a.frames ∧ a.bit i = false := by
  rw [mem_freeSet]
  have : a.base + i - a.base = i := by omega
  rw [this]
  constructor
  · rintro ⟨⟨-, h⟩, hb⟩
    exact ⟨by omega, hb⟩
  · rintro ⟨h, hb⟩
    exact ⟨⟨by omega, by omega⟩, hb⟩

/-- Free frames are managed. -/
theorem freeSet_subset_managed (a : FrameAllocator) : a.freeSet ⊆ a.managed :=
  Finset.filter_subset _ _

/-- The managed range has as many frames as the allocator says. -/
theorem card_managed (a : FrameAllocator) : a.managed.card = a.frames := by
  rw [managed, Nat.card_Ico]
  omega

/-- The index of a managed frame is its distance from the base. -/
theorem indexOf_of_mem {a : FrameAllocator} {f : Nat} (h : f ∈ a.managed) :
    a.indexOf f = some (f - a.base) := by
  rw [mem_managed] at h
  simp only [indexOf]
  rw [if_neg (by omega), if_neg (by omega)]

/-- A frame outside the managed range has no index. -/
theorem indexOf_of_notMem {a : FrameAllocator} {f : Nat} (h : f ∉ a.managed) :
    a.indexOf f = none := by
  rw [mem_managed] at h
  simp only [indexOf]
  split
  · rfl
  · rw [if_pos (by omega)]

/-! ### Single bits -/

private theorem and_mask_ne_zero (word : BitVec 64) (k : Nat) (hk : k < 64) :
    ((word &&& (1#64 <<< k)) != 0#64) = word.getLsbD k := by
  rw [← BitVec.twoPow_eq, BitVec.and_twoPow]
  cases word.getLsbD k with
  | false => simp
  | true =>
    simp only [↓reduceIte]
    rw [bne_iff_ne]
    intro h
    have := congrArg (·.getLsbD k) h
    simp [hk] at this

/-- Reading a bit that the bitmap covers does not panic. -/
theorem get_eq {a : FrameAllocator} {i : Nat} (h : i / 64 < a.bitmap.length) :
    a.get i = some (a.bit i) := by
  rw [get, List.getElem?_eq_getElem h, Option.map_some, and_mask_ne_zero _ _ (by omega)]
  rw [bit, List.getD_eq_getElem?_getD, List.getElem?_eq_getElem h, Option.getD_some]

private theorem getLsbD_update (word : BitVec 64) (k j : Nat) (v : Bool) (hj : j < 64)
    (hk : k < 64) :
    (if v then word ||| (1#64 <<< k) else word &&& ~~~(1#64 <<< k)).getLsbD j =
      if j = k then v else word.getLsbD j := by
  rw [← BitVec.twoPow_eq]
  by_cases h : j = k
  · subst h
    cases v <;> simp [hj]
  · cases v <;> simp [hj, h]

/-- Writing a bit that the bitmap covers does not panic and changes that bit only. -/
theorem set_eq {a : FrameAllocator} {i : Nat} (v : Bool) (h : i / 64 < a.bitmap.length) :
    ∃ bitmap, set i v a = some (.ok (), { a with bitmap := bitmap }) ∧
      bitmap.length = a.bitmap.length ∧
      ∀ j, ({ a with bitmap := bitmap } : FrameAllocator).bit j = if j = i then v else a.bit j := by
  refine ⟨a.bitmap.set (i / 64) (if v then a.bitmap[i / 64] ||| (1#64 <<< (i % 64))
    else a.bitmap[i / 64] &&& ~~~(1#64 <<< (i % 64))), ?_, by simp, ?_⟩
  · simp [set, Proc.run_bind, List.getElem?_eq_getElem h]
  · intro j
    simp only [bit, List.getD_eq_getElem?_getD, List.getElem?_set]
    by_cases hw : i / 64 = j / 64
    · rw [if_pos hw, if_pos h, Option.getD_some,
        getLsbD_update _ _ _ _ (Nat.mod_lt _ (by decide)) (Nat.mod_lt _ (by decide))]
      rw [← hw, List.getElem?_eq_getElem h, Option.getD_some]
      have hm : j % 64 = i % 64 ↔ j = i := by omega
      simp only [hm]
    · rw [if_neg hw]
      have hne : j ≠ i := by
        rintro rfl
        exact hw rfl
      rw [if_neg hne]

/-- A managed index is inside the bitmap. -/
theorem WF.div_lt {a : FrameAllocator} (h : a.WF) {i : Nat} (hi : i < a.frames) :
    i / 64 < a.bitmap.length := by
  have := h.covered
  omega

/-- The bit of a managed frame is read without a panic and says whether the frame is free. -/
theorem WF.get_of_mem {a : FrameAllocator} (h : a.WF) {f : Nat} (hf : f ∈ a.managed) :
    a.get (f - a.base) = some (decide (f ∉ a.freeSet)) := by
  have hm := mem_managed.mp hf
  rw [get_eq (h.div_lt (show f - a.base < a.frames by omega))]
  simp only [mem_freeSet, hm, true_and]
  cases a.bit (f - a.base) <;> rfl

/-- The query answers whether a managed frame is free, and nothing for another frame. -/
theorem WF.isAllocated_eq {a : FrameAllocator} (h : a.WF) (f : Nat) : a.isAllocated f =
    some (if f ∈ a.managed then some (decide (f ∉ a.freeSet)) else none) := by
  by_cases hf : f ∈ a.managed
  · rw [isAllocated, indexOf_of_mem hf, if_pos hf]
    simp only [h.get_of_mem hf, Option.map_some]
  · rw [isAllocated, indexOf_of_notMem hf, if_neg hf]

/-- The query answers no exactly on the free frames. -/
theorem WF.isAllocated_free {a : FrameAllocator} (h : a.WF) {f : Nat} :
    a.isAllocated f = some (some false) ↔ f ∈ a.freeSet := by
  rw [h.isAllocated_eq]
  constructor
  · intro hq
    split at hq
    · simpa using hq
    · cases hq
  · intro hf
    rw [if_pos (a.freeSet_subset_managed hf)]
    simpa using hf

/-- The available frames are counted without underflow. -/
theorem WF.freeFrames_eq {a : FrameAllocator} (h : a.WF) :
    a.freeFrames = some a.freeSet.card := by
  have := h.counted
  rw [freeFrames, subU64_of_le (by omega)]
  congr 1
  omega

/-- The recount of the first `n` bits does not panic and is the number of set bits. -/
theorem countAllocated_eq {a : FrameAllocator} (h : a.WF) {n : Nat} (hn : n ≤ a.frames) :
    a.countAllocated n = some ((Finset.range n).filter fun i ↦ a.bit i = true).card := by
  induction n with
  | zero => rfl
  | succ n ih =>
    simp only [countAllocated, Option.bind_eq_bind, ih (by omega), Option.bind_some,
      get_eq (h.div_lt (i := n) (by omega)), Finset.range_add_one, Finset.filter_insert]
    by_cases hb : a.bit n = true
    · rw [if_pos hb, if_pos hb, Finset.card_insert_of_notMem (by simp)]
    · rw [if_neg hb, if_neg hb]

private theorem card_bits_add_card_freeSet (a : FrameAllocator) :
    ((Finset.range a.frames).filter fun i ↦ a.bit i = true).card + a.freeSet.card = a.frames := by
  have hf : a.freeSet.card = ((Finset.range a.frames).filter fun i ↦ ¬ a.bit i = true).card := by
    symm
    refine Finset.card_bij (fun i _ ↦ a.base + i) ?_ ?_ ?_
    · intro i hi
      simp only [Finset.mem_filter, Finset.mem_range, Bool.not_eq_true] at hi
      exact base_add_mem_freeSet.mpr hi
    · intro i _ j _ hij
      omega
    · intro f hf
      have hm := mem_freeSet.mp hf
      refine ⟨f - a.base, ?_, by omega⟩
      simp only [Finset.mem_filter, Finset.mem_range, Bool.not_eq_true]
      exact ⟨by omega, hm.2⟩
  rw [hf, Finset.card_filter_add_card_filter_not, Finset.card_range]

/-- Under the invariant the audit passes. -/
theorem WF.audit_eq {a : FrameAllocator} (h : a.WF) : a.audit = some true := by
  have hc := card_bits_add_card_freeSet a
  have hn := h.counted
  rw [audit, countAllocated_eq h (Nat.le_refl _), Option.map_some]
  simp only [Option.some.injEq, beq_iff_eq]
  omega

end FrameAllocator
end LokoOS.Memory
