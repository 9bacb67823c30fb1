import LokoOS.Memory.Calls
import Mathlib.Order.Interval.Set.Basic

/-!
# Exact answers for runs of frames

`reserve_range`, `allocate_contiguous` and `free_contiguous` of
`kernel/loko-memory/src/lib.rs:204–301`, as a client sees them: when they succeed, what they
change and what they leave alone, in any state that calls on a built allocator reach.
-/

namespace LokoOS.Memory
open LokoOS.Base FrameAllocator

namespace FrameAllocator

/-- Allocation of a run finds one whenever there is one. It takes exactly the frames it
returns, and changes nothing where it fails. -/
structure AllocatesExactly (a : FrameAllocator) (count : Nat) : Prop where
  returns : ∃ answer a', allocateContiguous count a = some (answer, a')
  exhausted : (∃ a', allocateContiguous count a = some (.error .outOfMemory, a')) ↔
    ∀ s, ¬ ∀ f ∈ runOf s count, a.isAllocated f = some (some false)
  unchanged : ∀ e a', allocateContiguous count a = some (.error e, a') →
    e = .outOfMemory ∧ a' = a
  taken : ∀ s a', allocateContiguous count a = some (.ok s, a') →
    (∀ f ∈ runOf s count,
      a.isAllocated f = some (some false) ∧ a'.isAllocated f = some (some true)) ∧
      a'.allocatedFrames = a.allocatedFrames + count ∧
        ∀ f, f ∉ runOf s count → a'.isAllocated f = a.isAllocated f

/-- Freeing a run succeeds when all its frames may be freed. It frees exactly these, and
changes nothing where it fails; once its checks have passed it does not fail. -/
structure FreesExactly (a : FrameAllocator) (frame count : Nat) : Prop where
  returns : ∃ answer a', freeContiguous frame count a = some (answer, a')
  accepted : (∃ a', freeContiguous frame count a = some (.ok (), a')) ↔
    ∀ f ∈ runOf frame count, a.isAllocated f = some (some true)
  unchanged : ∀ e a', freeContiguous frame count a = some (.error e, a') → a' = a
  freed : ∀ a', freeContiguous frame count a = some (.ok (), a') →
    (∀ f ∈ runOf frame count, a'.isAllocated f = some (some false)) ∧
      a'.allocatedFrames + count = a.allocatedFrames ∧
        ∀ f, f ∉ runOf frame count → a'.isAllocated f = a.isAllocated f
  checked : ∀ a₁, Proc.forRange count (fun i ↦ do
      let f ← Proc.lift (addU64 frame i)
      checkAllocated f) a = some (.ok (), a₁) →
    ∃ a', Proc.forRange count (fun i ↦ do
      let f ← Proc.lift (addU64 frame i)
      free f) a₁ = some (.ok (), a')

/-- The bytes `[start, start + len)` and the frames that have one of them. -/
def Meets (start len f : Nat) : Prop :=
  0 < len ∧ (Set.Ico (f * frameSize) (f * frameSize + frameSize) ∩
    Set.Ico start (start + len)).Nonempty

/-- What an allocator has become when a range of bytes was reserved. The managed frames that
meet the range are allocated besides those that were, the count has grown by the frames whose
state changed, and the frames that are not managed are ignored. -/
structure ReservedExactly (a a' : FrameAllocator) (start len : Nat) : Prop where
  allocated_iff : ∀ f ∈ a.managed, a'.isAllocated f = some (some true) ↔
    a.isAllocated f = some (some true) ∨ Meets start len f
  counted : a'.allocatedFrames = a.allocatedFrames +
    (a.managed.filter fun f ↦ a'.isAllocated f ≠ a.isAllocated f).card
  range : a'.base = a.base ∧ a'.frames = a.frames
  ignored : ∀ f, f ∉ a.managed → a'.isAllocated f = some none
  beyond : ∀ i, a.frames ≤ i → a'.bit i = a.bit i

variable {a a' : FrameAllocator} {s f count start len : Nat}

private theorem meets_iff : Meets start len f ↔ Overlaps start len f := by
  unfold Meets Overlaps
  refine and_congr_right fun hlen ↦ ?_
  rw [Set.Ico_inter_Ico, Set.nonempty_Ico]
  simp only [frameSize]
  omega

private theorem Becomes.changed_by_range (ha : a.WF)
    (h : a.Becomes a' (a.freeSet.filter fun f ↦ ¬ Overlaps start len f)) :
    (a.managed.filter fun f ↦ a'.isAllocated f ≠ a.isAllocated f) =
      a.freeSet.filter fun f ↦ Overlaps start len f := by
  ext f
  rw [Finset.mem_filter, Finset.mem_filter, h.wf.isAllocated_eq, ha.isAllocated_eq, h.managed_eq,
    h.freeSet_eq]
  simp only [Finset.mem_filter]
  by_cases hf : f ∈ a.freeSet
  · have hm := a.freeSet_subset_managed hf
    simp [hf, hm]
  · simp [hf]

private theorem Becomes.reserved_range (ha : a.WF)
    (h : a.Becomes a' (a.freeSet.filter fun f ↦ ¬ Overlaps start len f)) :
    ReservedExactly a a' start len where
  allocated_iff f hf := by
    rw [h.wf.isAllocated_taken, ha.isAllocated_taken, Taken, Taken, h.managed_eq, h.freeSet_eq,
      meets_iff, Finset.mem_filter]
    by_cases hfree : f ∈ a.freeSet
    · simp [hf, hfree]
    · simp [hf, hfree]
  counted := by
    have hsplit : (a.freeSet.filter fun f ↦ Overlaps start len f).card +
        (a.freeSet.filter fun f ↦ ¬ Overlaps start len f).card = a.freeSet.card :=
      Finset.card_filter_add_card_filter_not _
    have hcount := ha.counted
    have hcount' := h.wf.counted
    rw [h.freeSet_eq, h.frames_eq] at hcount'
    rw [h.changed_by_range ha]
    change a'.allocated = a.allocated + _
    omega
  range := ⟨h.base_eq, h.frames_eq⟩
  ignored f hf := by rw [h.wf.isAllocated_eq, h.managed_eq, if_neg hf]
  beyond := h.beyond

private theorem free_iff_subset (h : a.WF) :
    (∀ f ∈ runOf s count, a.isAllocated f = some (some false)) ↔ runOf s count ⊆ a.freeSet := by
  constructor
  · intro hfree f hf
    exact h.isAllocated_free.mp (hfree f hf)
  · intro hsub f hf
    exact h.isAllocated_free.mpr (hsub hf)

private theorem Becomes.allocated_run (h : a.Becomes a' (a.freeSet \ runOf s count)) (ha : a.WF)
    (hsub : runOf s count ⊆ a.freeSet) :
    (∀ f ∈ runOf s count,
      a.isAllocated f = some (some false) ∧ a'.isAllocated f = some (some true)) ∧
      a'.allocatedFrames = a.allocatedFrames + count ∧
        ∀ f, f ∉ runOf s count → a'.isAllocated f = a.isAllocated f := by
  refine ⟨?_, ?_, ?_⟩
  · intro f hf
    have hfree := hsub hf
    constructor
    · exact ha.isAllocated_free.mpr hfree
    · rw [h.wf.isAllocated_taken, Taken, h.managed_eq, h.freeSet_eq]
      exact ⟨a.freeSet_subset_managed hfree, fun hm ↦ (Finset.mem_sdiff.mp hm).2 hf⟩
  · have hcard := Finset.card_sdiff_add_card_eq_card hsub
    rw [card_runOf] at hcard
    have hcount := ha.counted
    have hcount' := h.wf.counted
    rw [h.freeSet_eq, h.frames_eq] at hcount'
    change a'.allocated = a.allocated + count
    omega
  · intro f hf
    apply h.isAllocated_congr ha
    simp [hf]

private theorem Becomes.freed_run (h : a.Becomes a' (a.freeSet ∪ runOf s count)) (ha : a.WF)
    (ht : ∀ f ∈ runOf s count, a.Taken f) :
    (∀ f ∈ runOf s count, a'.isAllocated f = some (some false)) ∧
      a'.allocatedFrames + count = a.allocatedFrames ∧
        ∀ f, f ∉ runOf s count → a'.isAllocated f = a.isAllocated f := by
  refine ⟨?_, ?_, ?_⟩
  · intro f hf
    rw [h.wf.isAllocated_free, h.freeSet_eq]
    exact Finset.mem_union_right _ hf
  · have hdisjoint : Disjoint a.freeSet (runOf s count) := by
      apply Finset.disjoint_right.mpr
      exact fun f hf ↦ (ht f hf).2
    have hcard := Finset.card_union_of_disjoint hdisjoint
    rw [card_runOf] at hcard
    have hcount := ha.counted
    have hcount' := h.wf.counted
    rw [h.freeSet_eq, h.frames_eq] at hcount'
    change a'.allocated + count = a.allocated
    omega
  · intro f hf
    apply h.isAllocated_congr ha
    simp [hf]

end FrameAllocator

variable {a : FrameAllocator}

/-- In every reachable state reserving any 64-bit range returns, and reserves exactly the
managed frames that the range meets. -/
theorem reserveRange_exact (h : Reachable a) (start len : U64) :
    ∃ a', reserveRange start len a = some (.ok (), a') ∧ ReservedExactly a a' start len := by
  obtain ⟨a', hrun, hb⟩ := reserveRange_spec h.wf start len
  exact ⟨a', hrun, hb.reserved_range h.wf⟩

/-- Two bytes at the border of the two free frames. -/
theorem reserveRange_exact_two_free :
    ∃ a', reserveRange 0x5FFF 2 ⟨[0xFFFFFFFFFFFFFFF3#64], 3, 10, 8, 0⟩ = some (.ok (), a') ∧
      ReservedExactly ⟨[0xFFFFFFFFFFFFFFF3#64], 3, 10, 8, 0⟩ a' 0x5FFF 2 :=
  reserveRange_exact reachable_two_free 0x5FFF 2

/-- In every reachable state allocation of a run of any positive length is complete and
exact. -/
theorem allocateContiguous_exact (h : Reachable a) {count : Nat} (hc : 0 < count) :
    AllocatesExactly a count := by
  have hwf := h.wf
  rcases allocateContiguous_spec hwf count with ⟨s, a', ha, -, hsub, hb⟩ | ⟨ha, hnone⟩
  · constructor
    · exact ⟨_, _, ha⟩
    · constructor
      · rintro ⟨a₁, he⟩
        rw [ha] at he
        cases he
      · intro hno
        exact absurd ((free_iff_subset hwf).mpr hsub) (hno s)
    · intro e a₁ he
      rw [ha] at he
      cases he
    · intro s₁ a₁ he
      rw [ha] at he
      cases he
      exact hb.allocated_run hwf hsub
  · constructor
    · exact ⟨_, _, ha⟩
    · constructor
      · intro _ s hfree
        exact hnone hc s ((free_iff_subset hwf).mp hfree)
      · intro _
        exact ⟨a, ha⟩
    · intro e a₁ he
      rw [ha] at he
      cases he
      exact ⟨rfl, rfl⟩
    · intro s₁ a₁ he
      rw [ha] at he
      cases he

/-- Two frames are asked for where two are free. -/
theorem allocateContiguous_exact_two_free :
    AllocatesExactly ⟨[0xFFFFFFFFFFFFFFF3#64], 3, 10, 8, 0⟩ 2 :=
  allocateContiguous_exact reachable_two_free (by decide)

/-- In every reachable state freeing a run at any 64-bit frame is atomic and exact. -/
theorem freeContiguous_exact (h : Reachable a) (frame count : U64) :
    FreesExactly a frame count := by
  have hwf := h.wf
  have hu : frame.val ≤ u64Max := by
    rw [u64Max]
    omega
  have htaken : (∀ f ∈ runOf frame count, a.isAllocated f = some (some true)) ↔
      ∀ f ∈ runOf frame count, a.Taken f := by
    simp only [hwf.isAllocated_taken]
  have hchecked : ∀ a₁, Proc.forRange count (fun i ↦ do
        let f ← Proc.lift (addU64 frame i)
        checkAllocated f) a = some (.ok (), a₁) →
      ∃ a', Proc.forRange count (fun i ↦ do
        let f ← Proc.lift (addU64 frame i)
        free f) a₁ = some (.ok (), a') := by
    intro a₁ hpass
    rcases (checks_eq_ok hwf hu).mp hpass with ⟨ht, rfl⟩
    rcases frees_of_taken hwf ht with ⟨a', ha, -⟩
    exact ⟨a', ha⟩
  by_cases ht : ∀ f ∈ runOf frame count, a.Taken f
  · rcases freeContiguous_of_taken hwf ht with ⟨a', ha, hb⟩
    constructor
    · exact ⟨_, _, ha⟩
    · exact iff_of_true ⟨a', ha⟩ (htaken.mpr ht)
    · intro e a₁ he
      rw [ha] at he
      cases he
    · intro a₁ he
      rw [ha] at he
      cases he
      exact hb.freed_run hwf ht
    · exact hchecked
  · rcases freeContiguous_of_not_taken hwf hu ht with ⟨e, ha⟩
    constructor
    · exact ⟨_, _, ha⟩
    · constructor
      · rintro ⟨a', he⟩
        rw [ha] at he
        cases he
      · intro hf
        exact absurd (htaken.mp hf) ht
    · intro e a₁ he
      rw [ha] at he
      cases he
      rfl
    · intro a₁ he
      rw [ha] at he
      cases he
    · exact hchecked

/-- A run that begins with allocated frames and goes on past a free one. -/
theorem freeContiguous_exact_two_free :
    FreesExactly ⟨[0xFFFFFFFFFFFFFFF3#64], 3, 10, 8, 0⟩ 3 4 :=
  freeContiguous_exact reachable_two_free 3 4

end LokoOS.Memory
