import LokoOS.Memory.Calls

/-!
# Arbitrary runs of the allocator

What holds of an allocator of `kernel/loko-memory/src/lib.rs` after any calls with any
arguments, whether they succeed or not. No call panics: no index is past the end of the bitmap
and no checked sum or difference leaves its range.
-/

namespace LokoOS.Memory
open LokoOS.Base LokoOS.BootProtocol FrameAllocator

namespace FrameAllocator

/-- What an allocator keeps of the one it was built as, and what its parts agree on. -/
structure Sound (a₀ a : FrameAllocator) : Prop where
  audited : a.audit = some true
  counted : a.allocated = ((Finset.range a.frames).filter fun i ↦ a.bit i = true).card
  allocated_le : a.allocated ≤ a.frames
  cursor_le : a.cursor ≤ a.frames
  range : a.base = a₀.base ∧ a.frames = a₀.frames
  answers : ∀ f, (∃ taken, a.isAllocated f = some (some taken)) ↔ f ∈ a.managed
  silent : ∀ f, a.isAllocated f = some none ↔ f ∉ a.managed
  indices : ∀ i, i < a.frames → i / 64 < a.bitmap.length
  beyond : ∀ i, a.frames ≤ i → a.bit i = a₀.bit i

variable {a a' : FrameAllocator} {s : Finset Nat}

private theorem WF.counted_bits (h : a.WF) :
    a.allocated = ((Finset.range a.frames).filter fun i ↦ a.bit i = true).card := by
  have haudit := h.audit_eq
  rw [audit, countAllocated_eq h (Nat.le_refl _), Option.map_some, Option.some.injEq,
    beq_iff_eq] at haudit
  exact haudit.symm

private theorem Becomes.sound (h : a.Becomes a' s) : Sound a a' where
  audited := h.wf.audit_eq
  counted := h.wf.counted_bits
  allocated_le := by
    have hcount := h.wf.counted
    omega
  cursor_le := h.wf.cursor_le
  range := ⟨h.base_eq, h.frames_eq⟩
  answers f := by
    rw [h.wf.isAllocated_eq]
    by_cases hf : f ∈ a'.managed
    · rw [if_pos hf]
      exact iff_of_true ⟨_, rfl⟩ hf
    · rw [if_neg hf]
      simp [hf]
  silent f := by
    rw [h.wf.isAllocated_eq]
    by_cases hf : f ∈ a'.managed
    · simp [hf]
    · simp [hf]
  indices _ hi := h.wf.div_lt hi
  beyond i hi := h.beyond i (h.frames_eq ▸ hi)

end FrameAllocator

/-- The constructor for memory maps returns an allocator for every list of regions, and every
run of calls on a built allocator returns and leaves it sound. -/
theorem allocator_invariant {a₀ : FrameAllocator} (h : Built a₀) (calls : List Call) :
    (∃ t a, a₀.run calls = some (t, a) ∧ Sound a₀ a) ∧
      ∀ (bitmap : List (BitVec 64)) (regions : List MemoryRegion),
        (∀ r ∈ regions, r.start ≤ u64Max ∧ r.len ≤ u64Max) →
          ∃ a, fromMemoryMap bitmap regions = some (.ok a) ∧ Built a := by
  constructor
  · rcases h.wf.run calls with ⟨t, a, hrun, hb⟩
    exact ⟨t, a, hrun, hb.sound⟩
  · intro bitmap regions hr
    rcases fromMemoryMap_total hr bitmap with ⟨a, hmap, -⟩
    exact ⟨a, hmap, .fromMemoryMap hr hmap⟩

/-- Ten frames from the third on: a double free, a run that leaves the range and the largest
arguments. -/
theorem allocator_invariant_ten_frames :
    ∃ t a, run ⟨[BitVec.allOnes 64], 3, 10, 10, 0⟩ [.release 5, .allocate, .free 5, .free 5,
        .freeContiguous 12 (Fin.last _), .reserveRange (Fin.last _) (Fin.last _)] = some (t, a) ∧
      Sound ⟨[BitVec.allOnes 64], 3, 10, 10, 0⟩ a := by
  have hnew : FrameAllocator.new [0#64] 3 10 = .ok ⟨[BitVec.allOnes 64], 3, 10, 10, 0⟩ := rfl
  exact (allocator_invariant (.new (by decide) hnew) _).1

end LokoOS.Memory
