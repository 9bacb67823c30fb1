import LokoOS.Boot.Capacity
import LokoOS.Kernel.Start

/-!
# How the kernel ends

`kernel/loko-kernel/src/main.rs:80–267` on the values that `boot/loko-boot/src/main.rs:99–277`
hands over. The kernel's checked arithmetic can panic on a description that its validator
accepts. On what the bootloader describes it cannot, and the memory map alone decides how the
kernel ends.
-/

namespace LokoOS.Kernel
open LokoOS.Base LokoOS.BootProtocol LokoOS.Memory LokoOS.Boot FrameAllocator

/-- The stop-screen text when the heap has no room; `main.rs:239`. -/
def noHeapMemory : String :=
  "LokoOS could not start: there isn't enough memory in this device."

/-- What the kernel ends with when it is handed `info` and `regions`: the text of a stop screen
for want of usable memory or of room for the heap, or a heap in the lowest run of available
frames, which alone are no longer free. -/
inductive Outcome (bitmap : List (BitVec 64)) (info : BootInfo) (regions : List MemoryRegion) :
    Except String Started → Prop
  | noUsable (none_usable : ∀ r ∈ regions, r.kind ≠ .usable) :
      Outcome bitmap info regions (.error BootInfoError.noUsableMemory.message)
  | noRoom (usable : ∃ r ∈ regions, r.kind = .usable)
      (none_fits : ∀ f, ¬ HeapFits bitmap info regions f) :
      Outcome bitmap info regions (.error noHeapMemory)
  | halted {f : Nat} {frames : FrameAllocator} (usable : ∃ r ∈ regions, r.kind = .usable)
      (lowest : LowestFit bitmap info regions f) (wf : frames.WF)
      (free : ∀ g, g ∈ frames.freeSet ↔
        Available bitmap info regions g ∧ g ∉ runOf f (divCeil heapSize frameSize)) :
      Outcome bitmap info regions (.ok
        { surface := if info.framebuffer.isPresent then
            some { info.framebuffer with
              base := info.framebuffer.base + info.physicalMemoryOffset } else none
          frames := frames
          heap := (info.physicalMemoryOffset + f * frameSize, heapSize) })

variable {a : FrameAllocator} {bitmap : List (BitVec 64)} {info : BootInfo}
  {regions : List MemoryRegion} {fw : Firmware} {m m' : Memory} {handoff : Handoff}

/-- The regions handed over are a sorted permutation of those that the conversion kept. -/
theorem handoff_regions (hrun : loadAndStart fw m = some (.ok handoff, m'))
    (hfinal : FirmwareMap fw.finalMap) :
    handoff.bootInfo.memoryMapLen = handoff.regions.length ∧
      handoff.regions.Perm (kept fw.finalMap regionCapacity) ∧ SortedByStart handoff.regions := by
  obtain ⟨p, -, -, -, -, -, -, count, array, hconvert, hlen, hregions⟩ := loadAndStart_ok hrun
  obtain ⟨array', hrun', hperm, hsorted⟩ := convertMemoryMap_kept hfinal.len_le
    (show regionCapacity ≤ zeroedRegions.length by rw [zeroedRegions, List.length_replicate])
  rw [hconvert] at hrun'
  cases hrun'
  rw [hlen, hregions]
  exact ⟨hperm.length_eq.symm, hperm, hsorted⟩

end LokoOS.Kernel
