import LokoOS.BootProtocol.BootInfo
import LokoOS.Memory.FromMemoryMap

/-!
# The kernel takes ownership of physical memory

`kernel/loko-kernel/src/main.rs:58–61,164–227`. The allocator is built from the memory
map; then the kernel image, the framebuffer, the bootloader's memory and frame zero are
reserved and the allocator audits itself. A failure path stops the machine with a message.
-/

namespace LokoOS.Kernel
open LokoOS.Base LokoOS.BootProtocol LokoOS.Memory FrameAllocator

/-- The most physical memory this build can manage; `main.rs:56`. -/
def maxManagedMemory : Nat := 16 * 1024 * 1024 * 1024

/-- Words in the static bitmap; `main.rs:58`. -/
def bitmapWords : Nat := bitmapWordsFor (maxManagedMemory / frameSize)

/-- The stop-screen text when memory could not be set up; `main.rs:186,223`. -/
def memorySetupFailed : String :=
  "LokoOS could not start: this device's memory could not be set up."

/-- Reserve the screen when there is one; `main.rs:206–208`. -/
def reserveFramebuffer (screen : Framebuffer) : Proc FrameAllocator MemoryError Unit :=
  if screen.isPresent then reserveRange screen.base screen.size else pure ()

/-- Reserve the bootloader's own memory; `main.rs:212–216`. -/
def reserveReclaimable (regions : List MemoryRegion) : Proc FrameAllocator MemoryError Unit :=
  Proc.forEach regions fun region ↦
    if region.kind = .bootloaderReclaimable then reserveRange region.start region.len
    else pure ()

/-- The reservations of everything in use at handoff; `main.rs:205–219`. -/
def reserveInUse (info : BootInfo) (regions : List MemoryRegion) :
    Proc FrameAllocator MemoryError Unit := do
  reserveRange info.kernelPhysicalBase info.kernelSize
  reserveFramebuffer info.framebuffer
  reserveReclaimable regions
  let _ ← Proc.attempt (δ := MemoryError) (reserve 0)
  pure ()

/-- Build the frame allocator and reserve what must not be handed out; `main.rs:164`.
The comparison of the managed bytes with the highest usable address only logs. -/
def setupMemory (bitmap : List (BitVec 64)) (info : BootInfo) (regions : List MemoryRegion) :
    Option (Except String FrameAllocator) :=
  match fromMemoryMap bitmap regions with
  | none => none
  | some (.error _) => some (.error memorySetupFailed)
  | some (.ok frames) => do
    let _ ← mulU64 frames.totalFrames frameSize
    let (_, frames) ← reserveInUse info regions frames
    let consistent ← frames.audit
    some (if consistent then .ok frames else .error memorySetupFailed)

/-- Frame `f` is in use at handoff. -/
def InUse (info : BootInfo) (regions : List MemoryRegion) (f : Nat) : Prop :=
  f = 0 ∨ Overlaps info.kernelPhysicalBase info.kernelSize f ∨
    (info.framebuffer.isPresent = true ∧
      Overlaps info.framebuffer.base info.framebuffer.size f) ∨
    ∃ r ∈ regions, r.kind = .bootloaderReclaimable ∧ Overlaps r.start r.len f

instance (info : BootInfo) (regions : List MemoryRegion) (f : Nat) :
    Decidable (InUse info regions f) :=
  inferInstanceAs (Decidable (_ ∨ _ ∨ _ ∨ ∃ r ∈ regions, _))

variable {a : FrameAllocator} {info : BootInfo} {regions : List MemoryRegion}

/-- Reserving the bootloader's memory removes exactly the frames that overlap it. -/
theorem reserveReclaimable_spec (h : a.WF) (regions : List MemoryRegion) :
    ∃ a', reserveReclaimable regions a = some (.ok (), a') ∧
      a.Becomes a' (a.freeSet.filter fun f ↦
        ¬ ∃ r ∈ regions, r.kind = .bootloaderReclaimable ∧ Overlaps r.start r.len f) := by
  refine Proc.forEach_total (fun (done : List MemoryRegion) (s : FrameAllocator) ↦
    a.Becomes s (a.freeSet.filter fun f ↦
      ¬ ∃ r ∈ done, r.kind = .bootloaderReclaimable ∧ Overlaps r.start r.len f)) ?_ ?_
  · intro done r s _ hs
    by_cases hk : r.kind = .bootloaderReclaimable
    · obtain ⟨s', hr, hs'⟩ := reserveRange_spec hs.wf r.start r.len
      refine ⟨s', by rw [if_pos hk, hr], (hs.trans hs').congr ?_⟩
      rw [hs.freeSet_eq, Finset.filter_filter]
      apply Finset.filter_congr
      intro f _
      simp only [List.mem_append, List.mem_singleton]
      grind
    · refine ⟨s, by rw [if_neg hk, Proc.run_pure], hs.congr (Finset.filter_congr fun f _ ↦ ?_)⟩
      simp only [List.mem_append, List.mem_singleton]
      grind
  · apply h.becomes_self.congr
    rw [Finset.filter_true_of_mem]
    rintro f _ ⟨r, hr, -⟩
    simp at hr

/-- Reserving the screen removes exactly the frames that overlap it. -/
theorem reserveFramebuffer_spec (h : a.WF) (screen : Framebuffer) :
    ∃ a', reserveFramebuffer screen a = some (.ok (), a') ∧
      a.Becomes a' (a.freeSet.filter fun f ↦
        ¬ (screen.isPresent = true ∧ Overlaps screen.base screen.size f)) := by
  by_cases hp : screen.isPresent = true
  · obtain ⟨a', hr, hb⟩ := reserveRange_spec h screen.base screen.size
    exact ⟨a', by rw [reserveFramebuffer, if_pos hp, hr], hb.congr (by simp [hp])⟩
  · refine ⟨a, by rw [reserveFramebuffer, if_neg hp, Proc.run_pure], h.becomes_self.congr ?_⟩
    simp [hp]

/-- The reservations remove exactly the frames in use. -/
theorem reserveInUse_spec (h : a.WF) (info : BootInfo) (regions : List MemoryRegion) :
    ∃ a', reserveInUse info regions a = some (.ok (), a') ∧
      a.Becomes a' (a.freeSet.filter fun f ↦ ¬ InUse info regions f) := by
  obtain ⟨a₁, hkernel, hb₁⟩ :=
    reserveRange_spec h info.kernelPhysicalBase info.kernelSize
  obtain ⟨a₂, hscreen, hb₂⟩ := reserveFramebuffer_spec hb₁.wf info.framebuffer
  obtain ⟨a₃, hreclaim, hb₃⟩ := reserveReclaimable_spec hb₂.wf regions
  obtain ⟨r, a₄, hzero, hb₄⟩ := attempt_reserve hb₃.wf 0
  refine ⟨a₄, ?_, (((hb₁.trans hb₂).trans hb₃).trans hb₄).congr ?_⟩
  · rw [reserveInUse, Proc.run_bind_ok hkernel, Proc.run_bind_ok hscreen,
      Proc.run_bind_ok hreclaim, Proc.run_bind_ok hzero, Proc.run_pure]
  · rw [hb₃.freeSet_eq, hb₂.freeSet_eq, hb₁.freeSet_eq]
    ext f
    simp only [Finset.mem_erase, Finset.mem_filter, InUse]
    grind

/-- On a valid map the kernel's memory setup succeeds, with any bitmap, and leaves free
exactly the managed usable frames that are not in use. -/
theorem setupMemory_spec (hv : ValidMemoryMap regions) (bitmap : List (BitVec 64))
    (info : BootInfo) :
    ∃ a, setupMemory bitmap info regions = some (.ok a) ∧ a.WF ∧
      a.managed = Finset.range (managedFrames bitmap regions) ∧
      a.freeSet = a.managed.filter fun f ↦ UsableFrame regions f ∧ ¬ InUse info regions f := by
  obtain ⟨a₀, hmap, hwf, hbase, hframes, hfree⟩ := fromMemoryMap_spec hv bitmap
  obtain ⟨a, hres, hb⟩ := reserveInUse_spec hwf info regions
  have hmul : a₀.totalFrames * frameSize ≤ u64Max := by
    rw [totalFrames, hframes]
    exact (managedFrames_mul_le bitmap regions).trans (highest_le regions)
  refine ⟨a, ?_, hb.wf, ?_, ?_⟩
  · rw [setupMemory, hmap]
    simp only [mulU64_of_le hmul, hres, hb.wf.audit_eq, Option.bind_eq_bind, Option.bind_some,
      ↓reduceIte]
  · rw [hb.managed_eq, managed, hbase, hframes, Finset.range_eq_Ico, Nat.zero_add]
  · rw [hb.freeSet_eq, hfree, Finset.filter_filter, hb.managed_eq]

private theorem usableFrame_not_overlaps (hv : ValidMemoryMap regions) {f : Nat}
    (hf : UsableFrame regions f) {r : MemoryRegion} (hr : r ∈ regions)
    (hk : r.kind ≠ .usable) : ¬ Overlaps r.start r.len f := by
  obtain ⟨u, hu, hukind, hlo, hhi⟩ := hf
  rintro ⟨-, hs, he⟩
  have hne : u ≠ r := by
    rintro rfl
    exact hk (MemoryKind.usableAtHandoff_iff.mp hukind)
  -- distinct regions of a sorted map lie one after the other
  rcases hv.before_or_before hu hr hne with hb | hb
  · simp only [MemoryRegion.Before] at hb
    omega
  · simp only [MemoryRegion.Before] at hb
    omega

/-- Memory setup succeeds on every map the validator accepts, with any bitmap, and manages the
frames below the end of the map that the bitmap can describe. A managed frame is free
afterwards exactly when it is not frame zero, lies in a usable region and overlaps neither the
kernel nor the screen; nothing of another kind is ever free. -/
theorem setupMemory_exact (hv : validateMemoryMap regions = .ok ())
    (bitmap : List (BitVec 64)) (info : BootInfo) :
    (∃ a₀, fromMemoryMap bitmap regions = some (.ok a₀)) ∧
    ∃ a, setupMemory bitmap info regions = some (.ok a) ∧ a.audit = some true ∧
      a.managed = Finset.range (managedFrames bitmap regions) ∧
      (∀ f ∈ a.managed, a.isAllocated f = some (some false) ↔
        f ≠ 0 ∧ (∃ r ∈ regions, r.kind = .usable ∧ FrameIn r f) ∧
          ¬ Overlaps info.kernelPhysicalBase info.kernelSize f ∧
          ¬ (info.framebuffer.isPresent = true ∧
            Overlaps info.framebuffer.base info.framebuffer.size f)) ∧
      ∀ f ∈ a.managed, a.isAllocated f = some (some false) →
        ∀ r ∈ regions, r.kind ≠ .usable → ¬ Overlaps r.start r.len f := by
  have hvalid := validateMemoryMap_eq_ok_iff.mp hv
  obtain ⟨a₀, hmap, -⟩ := fromMemoryMap_spec hvalid bitmap
  obtain ⟨a, hsetup, hwf, hmanaged, hfree⟩ := setupMemory_spec hvalid bitmap info
  have hread : ∀ f ∈ a.managed, a.isAllocated f = some (some false) ↔
      UsableFrame regions f ∧ ¬ InUse info regions f := by
    intro f hf
    rw [hwf.isAllocated_free, hfree, Finset.mem_filter, and_iff_right hf]
  refine ⟨⟨a₀, hmap⟩, a, hsetup, hwf.audit_eq, hmanaged, ?_, ?_⟩
  · intro f hf
    rw [hread f hf]
    have hkind : UsableFrame regions f ↔ ∃ r ∈ regions, r.kind = .usable ∧ FrameIn r f := by
      simp only [UsableFrame, MemoryKind.usableAtHandoff_iff]
    rw [← hkind]
    constructor
    · rintro ⟨hu, hn⟩
      simp only [InUse, not_or] at hn
      exact ⟨hn.1, hu, hn.2.1, hn.2.2.1⟩
    · rintro ⟨hzero, hu, hkernel, hscreen⟩
      refine ⟨hu, ?_⟩
      rintro (h | h | h | ⟨r, hr, hrk, ho⟩)
      · exact hzero h
      · exact hkernel h
      · exact hscreen h
      · exact usableFrame_not_overlaps hvalid hu hr (by simp [hrk]) ho
  · intro f hf hfreeAt r hr hrk
    exact usableFrame_not_overlaps hvalid ((hread f hf).mp hfreeAt).1 hr hrk

/-- A kernel image in the third frame of a map of four usable frames. -/
theorem setupMemory_exact_four_frames :
    ∃ a, setupMemory [0#64] ⟨0, 0, 1, 112, 0, 1, 0, 0, 8192, 0, 100, .none, 0, 0⟩
        [⟨0, 16384, .usable, 0⟩] = some (.ok a) ∧ a.audit = some true ∧
      a.managed = Finset.range (managedFrames [0#64] [⟨0, 16384, .usable, 0⟩]) :=
  (setupMemory_exact (by decide) [0#64]
    ⟨0, 0, 1, 112, 0, 1, 0, 0, 8192, 0, 100, .none, 0, 0⟩).2.imp fun _ h ↦
      ⟨h.1, h.2.1, h.2.2.1⟩

end LokoOS.Kernel
