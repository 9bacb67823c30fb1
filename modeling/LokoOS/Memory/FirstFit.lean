import LokoOS.Base.Keeps
import LokoOS.Memory.FromMemoryMap

/-!
# First fit from a fresh allocator

`kernel/loko-memory/src/lib.rs:98–265`. Building an allocator and reserving leave the cursor
at zero, and from there the search of `allocate_contiguous` returns the lowest free run.
-/

namespace LokoOS.Memory
open LokoOS.Base LokoOS.BootProtocol

namespace FrameAllocator

variable {a a' : FrameAllocator} {f count : Nat} {τ : Type} {part : FrameAllocator → τ}

/-! ### What marking frames does not touch -/

/-- A part of the allocator that depends neither on the bitmap nor on the count. -/
def Apart (part : FrameAllocator → τ) : Prop :=
  ∀ a bitmap allocated, part { a with bitmap := bitmap, allocated := allocated } = part a

/-- The cursor is such a part. -/
theorem apart_cursor : Apart cursor := fun _ _ _ ↦ rfl

/-- The base is such a part. -/
theorem apart_base : Apart base := fun _ _ _ ↦ rfl

/-- Writing a bit touches the bitmap only. -/
theorem Apart.set (h : Apart part) (index : Nat) (allocated : Bool) :
    Proc.Keeps part (set index allocated) :=
  .bind .get fun _ ↦ .bind (.lift _) fun _ ↦ .modify fun a ↦ h a _ a.allocated

private theorem Apart.addAllocated (h : Apart part) (n : Nat) : Proc.Keeps part (addAllocated n) :=
  .bind .get fun _ ↦ .bind (.lift _) fun _ ↦ .modify fun a ↦ h a a.bitmap _

/-- Discounting frames touches the count only. -/
theorem Apart.subAllocated (h : Apart part) (n : Nat) : Proc.Keeps part (subAllocated n) :=
  .bind .get fun _ ↦ .bind (.lift _) fun _ ↦ .modify fun a ↦ h a a.bitmap _

/-- Releasing a frame touches the bitmap and the count only. -/
theorem Apart.release (h : Apart part) (frame : Nat) : Proc.Keeps part (release frame) := by
  apply Proc.Keeps.bind .get
  intro a
  apply Proc.Keeps.bind (.orFail _ _)
  intro index
  apply Proc.Keeps.bind (.lift _)
  intro taken
  apply Proc.Keeps.ite
  · exact .bind (h.set index false) fun _ ↦ h.subAllocated 1
  · exact .pure ()

/-- Reserving a frame touches the bitmap and the count only. -/
theorem Apart.reserve (h : Apart part) (frame : Nat) : Proc.Keeps part (reserve frame) := by
  apply Proc.Keeps.bind .get
  intro a
  apply Proc.Keeps.bind (.orFail _ _)
  intro index
  apply Proc.Keeps.bind (.lift _)
  intro taken
  apply Proc.Keeps.ite
  · exact .bind (h.set index true) fun _ ↦ h.addAllocated 1
  · exact .pure ()

/-- Reserving a range touches the bitmap and the count only. -/
theorem Apart.reserveRange (h : Apart part) (start len : Nat) :
    Proc.Keeps part (reserveRange start len) := by
  apply Proc.Keeps.ite
  · exact .pure ()
  · apply Proc.Keeps.forRange
    intro i
    exact .bind (.attempt (h.reserve _)) fun _ ↦ .pure ()

private theorem Apart.releaseRegion (h : Apart part) (region : MemoryRegion) :
    Proc.Keeps part (releaseRegion region) := by
  apply Proc.Keeps.forRange
  intro i
  apply Proc.Keeps.bind (.lift _)
  intro f
  exact .bind (.attempt (h.release f)) fun _ ↦ .pure ()

/-- An allocator built from a memory map starts its first search at zero. -/
theorem fromMemoryMap_cursor {bitmap : List (BitVec 64)} {regions : List MemoryRegion}
    (h : fromMemoryMap bitmap regions = some (.ok a)) : a.cursor = 0 := by
  unfold fromMemoryMap at h
  simp only at h
  split at h
  · cases h
  · next a₀ hnew =>
    rw [Option.map_eq_some_iff] at h
    obtain ⟨p, hrun, he⟩ := h
    obtain ⟨r, a₁⟩ := p
    have hkept := Proc.Keeps.forEach apart_cursor.releaseRegion a₀ r a₁ hrun
    cases r with
    | error e => cases he
    | ok u =>
      cases he
      rw [hkept]
      unfold new at hnew
      split at hnew
      · cases hnew
      · cases hnew
        rfl

/-! ### The lowest run -/

/-- The window that is taken starts at its index from the base. -/
theorem takeWindow_start {k : Nat} (ha : takeWindow k count a = some (.ok f, a')) :
    f = a.base + k := by
  obtain ⟨_, a₁, hloop, ha⟩ := Proc.bind_eq_ok.mp ha
  obtain ⟨_, a₂, hcount, ha⟩ := Proc.bind_eq_ok.mp ha
  have hbase₁ := Proc.Keeps.forRange (fun i ↦ apart_base.set (k + i) true) a _ a₁ hloop
  have hbase₂ := apart_base.addAllocated count a₁ _ a₂ hcount
  rw [Proc.run_bind_ok rfl, Proc.run_bind_ok rfl] at ha
  obtain ⟨hadd, -⟩ := Proc.lift_eq_ok.mp ha
  have hsum := (addU64_eq_some.mp hadd).2
  rw [← hsum, ← hbase₁, ← hbase₂]

private theorem not_free_of_bit (hb : a.base ≤ f) {i : Nat} (hi : f - a.base ≤ i)
    (hic : i < f - a.base + count) (hset : a.bit i = true) : ¬ runOf f count ⊆ a.freeSet := by
  intro hsub
  have hmem : a.base + i ∈ runOf f count := mem_runOf.mpr ⟨by omega, by omega⟩
  have hclear := (mem_freeSet.mp (hsub hmem)).2
  rw [Nat.add_sub_cancel_left, hset] at hclear
  cases hclear

/-- The run that a search from zero returns is the lowest one. -/
theorem allocateContiguous_lowest (h : a.WF) (hcursor : a.cursor = 0)
    (ha : allocateContiguous count a = some (.ok f, a')) {g : Nat} (hg : g < f) :
    ¬ runOf g count ⊆ a.freeSet := by
  unfold allocateContiguous at ha
  rw [Proc.run_bind_ok (Proc.run_get a), hcursor] at ha
  split at ha
  · cases ha
  · next hc =>
    have hle : count ≤ a.frames := by omega
    rcases searchFrom_spec h hle 0 (Nat.zero_le _) with ⟨k, hs, -, -⟩ | ⟨hs, -⟩
    · simp only [Proc.run_bind, hs, Proc.run_lift_some] at ha
      have hstart := takeWindow_start ha
      intro hsub
      have hbase := (mem_freeSet.mp (hsub (mem_runOf.mpr ⟨Nat.le_refl g, by omega⟩))).1.1
      obtain ⟨i, hi, hic, hset⟩ := searchFrom_first h 0 hs (Nat.zero_le (g - a.base)) (by omega)
      exact not_free_of_bit hbase hi hic hset hsub
    · simp only [Proc.run_bind, hs, Proc.run_lift_some, Proc.run_fail] at ha
      cases ha

end FrameAllocator
end LokoOS.Memory
