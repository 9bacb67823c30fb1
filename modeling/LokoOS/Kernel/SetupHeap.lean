import LokoOS.Boot.Handed
import LokoOS.Kernel.SetupMemory
import LokoOS.Memory.Ownership

/-!
# Frames and the physical window

`kernel/loko-kernel/src/main.rs:229–252` and `heap.rs:14–17`. The kernel reaches a frame
through the window the bootloader mapped. The frames it can allocate come from the final
memory map and a bitmap of 16 GiB, the window from an earlier map and a clamp at 64 GiB.
-/

namespace LokoOS.Kernel
open LokoOS.Base LokoOS.BootProtocol LokoOS.Memory LokoOS.Boot FrameAllocator

/-- Bytes of the kernel heap; `heap.rs:17`. -/
def heapSize : Nat := 1024 * 1024

/-- Allocate the kernel heap; `main.rs:230`. Returns what `heap::init` is given. -/
def setupHeap (physicalMemoryOffset : Nat) : Proc FrameAllocator String (Nat × Nat) := do
  let needed := divCeil heapSize frameSize
  let first ← Proc.mapError
    (fun _ ↦ "LokoOS could not start: there isn't enough memory in this device.")
    (allocateContiguous needed)
  let start ← Proc.lift (FrameNumber.startAddress first)
  let virt ← Proc.lift (addU64 physicalMemoryOffset start)
  pure (virt, heapSize)

variable {fw : Firmware} {m m' : Memory} {handoff : Handoff} {map : List MemoryDescriptor}
  {bitmap : List (BitVec 64)} {frames : FrameAllocator}

/-- Every byte of conventional memory in the final map was installed memory in the earlier
one. -/
def Covered (map finalMap : List MemoryDescriptor) : Prop :=
  ∀ d ∈ finalMap, d.ty = .conventional → ∀ address, d.Covers address → InstalledRam map address

/-- A usable frame of the converted map lies in conventional memory of the final map. -/
theorem usableFrame_conventional {count : Nat} {array : RegionArray}
    (h : convertMemoryMap fw.finalMap regionCapacity zeroedRegions = some (.ok count, array))
    {f : Nat} (hf : UsableFrame (array.take count) f) :
    ∃ d ∈ fw.finalMap, d.ty = .conventional ∧
      ∀ k < frameSize, d.Covers (f * frameSize + k) := by
  obtain ⟨r, hr, hkind, hlo, hhi⟩ := hf
  have hout : regionCapacity ≤ zeroedRegions.length := by
    rw [zeroedRegions, List.length_replicate]
  obtain ⟨d, hd, -, rfl⟩ := mem_translated.mp (convertMemoryMap_subset hout h r hr)
  refine ⟨d, hd, translateKind_eq_usable.mp (MemoryKind.usableAtHandoff_iff.mp hkind), ?_⟩
  intro k hk
  rw [Nat.succ_mul] at hhi
  simp only [MemoryDescriptor.toRegion] at hlo hhi
  exact ⟨by omega, by omega⟩

/-- The bitmap limits the frames managed to those below 16 GiB. -/
theorem managedFrames_le (hbitmap : bitmap.length = bitmapWords) (regions : List MemoryRegion) :
    managedFrames bitmap regions * frameSize ≤ maxManagedMemory := by
  have hwords : bitmapWords = 65536 := by decide
  simp only [managedFrames, saturatingMul, hbitmap, hwords, maxManagedMemory, frameSize]
  omega

/-- A frame that is free after the kernel's memory setup is mapped in the window. -/
theorem freeFrame_mapped (hrun : loadAndStart fw m = some (.ok handoff, m'))
    (hmap : fw.memoryMap = some map) (hcover : Covered map fw.finalMap)
    (hvalid : validateMemoryMap handoff.regions = .ok ())
    (hbitmap : bitmap.length = bitmapWords)
    (hsetup : setupMemory bitmap handoff.bootInfo handoff.regions = some (.ok frames))
    {f : Nat} (hf : f ∈ frames.freeSet) {k : Nat} (hk : k < frameSize) :
    walk m' handoff.cr3 (defaultPhysicalMemoryOffset + (f * frameSize + k)) =
      some ⟨f * frameSize + k, .readWrite⟩ := by
  obtain ⟨p, hprepare, hcr3, -, -, -, -, count, array, hconvert, -, hregions⟩ :=
    loadAndStart_ok hrun
  obtain ⟨segments, hready⟩ := prepareHandover_ok hprepare
  obtain ⟨map', highest, hmap', hhighest, hram⟩ := hready.highest
  rw [hmap] at hmap'
  cases hmap'
  obtain ⟨a, hset, -, hmanaged, hfree⟩ :=
    setupMemory_spec (validateMemoryMap_eq_ok_iff.mp hvalid) bitmap handoff.bootInfo
  rw [hsetup] at hset
  cases hset
  rw [hfree, Finset.mem_filter, hmanaged, Finset.mem_range] at hf
  obtain ⟨hlt, husable, -⟩ := hf
  -- the final map puts the frame in installed memory, the bitmap below the clamp
  rw [hregions] at husable
  obtain ⟨d, hd, hty, hcovers⟩ := usableFrame_conventional hconvert husable
  have hbelow := (highestRamEnd_spec hhighest).2 _ (hcover d hd hty _ (hcovers k hk))
  have hclamp : f * frameSize + k < maxMappedPhysical := by
    have hle := managedFrames_le hbitmap handoff.regions
    have hend : f * frameSize + frameSize ≤ managedFrames bitmap handoff.regions * frameSize :=
      item_end_le hlt
    simp only [maxManagedMemory] at hle
    simp only [maxMappedPhysical]
    omega
  rw [hready.memory_eq, hcr3, PageTables.walk_eq hready.wf]
  apply hready.space.translate_window
  · rw [hram]
    exact Nat.min_le_right _ _
  · rw [hram]
    exact Nat.lt_min.mpr ⟨hbelow, hclamp⟩

private theorem allocated_subset (hwf : frames.WF) {s : Session}
    (hs : Session.Reachable ⟨frames, []⟩ s) {count f : Nat} {a' : FrameAllocator}
    (h : allocateContiguous count s.allocator = some (.ok f, a')) :
    runOf f count ⊆ frames.freeSet := by
  have h₀ : Session.Owned frames ⟨frames, []⟩ := ⟨hwf, rfl, Ledger.balanced_nil _⟩
  have hown := h₀.reachable hs
  rcases allocateContiguous_spec hown.wf count with ⟨g, b, hrun, -, hsub, -⟩ | ⟨hrun, -⟩
  · rw [h] at hrun
    cases hrun
    exact hsub.trans hown.balanced.free_subset
  · rw [h] at hrun
    cases hrun

/-- Every frame that the kernel can allocate is reachable through the window. When the
handover succeeded and conventional memory of the final map was installed memory before,
then in every later state of the allocator each run that it returns is mapped in the window,
byte for byte and read-write, and so is the heap. -/
theorem allocatable_frames_mapped (hrun : loadAndStart fw m = some (.ok handoff, m'))
    (hmap : fw.memoryMap = some map) (hcover : Covered map fw.finalMap)
    (hvalid : handoff.bootInfo.validate handoff.regions = .ok ())
    (hbitmap : bitmap.length = bitmapWords)
    (hsetup : setupMemory bitmap handoff.bootInfo handoff.regions = some (.ok frames)) :
    ∀ s, Session.Reachable ⟨frames, []⟩ s →
      (∀ f count a', (allocate s.allocator = some (.ok f, a') ∧ count = 1 ∨
          allocateContiguous count s.allocator = some (.ok f, a')) →
        ∀ g ∈ runOf f count, ∀ k < frameSize,
          walk m' handoff.cr3 (handoff.bootInfo.physicalMemoryOffset + (g * frameSize + k)) =
            some ⟨g * frameSize + k, .readWrite⟩) ∧
      ∀ start size a', setupHeap handoff.bootInfo.physicalMemoryOffset s.allocator =
          some (.ok (start, size), a') →
        size = heapSize ∧ ∃ physical, start = handoff.bootInfo.physicalMemoryOffset + physical ∧
          ∀ k < size, walk m' handoff.cr3 (start + k) = some ⟨physical + k, .readWrite⟩ := by
  have hregions := (BootInfo.validate_eq_ok hvalid).1
  obtain ⟨a, hset, hwf, -⟩ :=
    setupMemory_spec (validateMemoryMap_eq_ok_iff.mp hregions) bitmap handoff.bootInfo
  rw [hsetup] at hset
  cases hset
  have hoffset : handoff.bootInfo.physicalMemoryOffset = defaultPhysicalMemoryOffset := by
    obtain ⟨p, -, -, -, -, -, hoffset, -⟩ := loadAndStart_ok hrun
    exact hoffset
  have hmapped : ∀ s, Session.Reachable ⟨frames, []⟩ s → ∀ count f a',
      allocateContiguous count s.allocator = some (.ok f, a') → ∀ g ∈ runOf f count,
        ∀ k < frameSize, walk m' handoff.cr3
          (defaultPhysicalMemoryOffset + (g * frameSize + k)) =
            some ⟨g * frameSize + k, .readWrite⟩ := by
    intro s hs count f a' halloc g hg k hk
    exact freeFrame_mapped hrun hmap hcover hregions hbitmap hsetup
      (allocated_subset hwf hs halloc hg) hk
  intro s hs
  rw [hoffset]
  constructor
  · rintro f count a' (⟨halloc, rfl⟩ | halloc)
    · exact hmapped s hs 1 f a' halloc
    · exact hmapped s hs count f a' halloc
  · intro start size a' hheap
    obtain ⟨first, a₁, halloc, hheap⟩ := Proc.bind_eq_ok.mp hheap
    rw [FrameNumber.startAddress, Proc.mulU64_bind_eq_ok, Proc.addU64_bind_eq_ok] at hheap
    obtain ⟨-, -, hheap⟩ := hheap
    cases hheap
    have halloc := Proc.mapError_eq_ok.mp halloc
    refine ⟨rfl, first * frameSize, rfl, ?_⟩
    intro k hk
    have hg : first + k / frameSize ∈ runOf first (divCeil heapSize frameSize) :=
      mem_runOf.mpr ⟨Nat.le_add_right _ _,
        Nat.add_lt_add_left (div_lt_divCeil hk (by decide)) _⟩
    have hbyte := hmapped s hs _ first _ halloc _ hg (k % frameSize)
      (Nat.mod_lt _ (by decide))
    have hsame : (first + k / frameSize) * frameSize + k % frameSize = first * frameSize + k := by
      simp only [frameSize]
      omega
    rw [hsame] at hbyte
    rw [Nat.add_assoc]
    exact hbyte

/-- The memory of the large machine is what firmware reports. -/
theorem firmwareMap_largeMap : FirmwareMap largeMap where
  aligned := by decide
  in_range := by decide
  disjoint := by
    simp only [largeMap, List.pairwise_cons, List.mem_cons, List.not_mem_nil, or_false,
      forall_eq_or_imp, forall_eq, MemoryDescriptor.Covers, MemoryDescriptor.len, pageSize,
      IsEmpty.forall_iff, implies_true, List.Pairwise.nil, and_true]
    refine ⟨⟨fun a ↦ ?_, fun a ↦ ?_⟩, fun a ↦ ?_⟩ <;> omega

/-- The large machine reaches the kernel, which accepts what it is given. -/
theorem loadAndStart_largeMachine :
    ∃ handoff m', loadAndStart (largeMachine 0x600000) (fun _ ↦ 0) = some (.ok handoff, m') ∧
      handoff.bootInfo.validate handoff.regions = .ok () := by
  obtain ⟨p, m', hprepare, hs, hr, hb, -⟩ :=
    prepareHandover_largeMachine 0x600000 (by decide) (fun _ ↦ 0)
  obtain ⟨array, hconvert, -, hperm, hsorted⟩ :=
    convertMemoryMap_spec firmwareMap_largeMap.len_le
      (show (translated largeMap).length ≤ regionCapacity by decide)
      (show regionCapacity ≤ zeroedRegions.length by rw [zeroedRegions, List.length_replicate])
  have hregions := (firmwareMap_largeMap.validate_iff hperm hsorted).mpr
    ⟨⟨.conventional, 2 ^ 23, 2 ^ 24 - 2 ^ 11⟩, by decide, by decide, rfl⟩
  have hcount : (translated largeMap).length ≠ 0 := by decide
  have htop : p.stack + kernelStackPages * pageSize ≤ u64Max := by
    rw [hs]
    decide
  have harray : defaultPhysicalMemoryOffset + p.regions ≤ u64Max := by
    rw [hr]
    decide
  have hinfo : defaultPhysicalMemoryOffset + p.bootInfoFrame ≤ u64Max := by
    rw [hb]
    decide
  have hstack : defaultPhysicalMemoryOffset + (p.stack + kernelStackPages * pageSize) ≤ u64Max := by
    rw [hs]
    decide
  refine ⟨_, m', Proc.bind_eq_ok.mpr ⟨_, _, hprepare, Proc.addU64_bind_eq_ok.mpr ⟨htop,
    Proc.bind_eq_ok.mpr ⟨_, _, Proc.mapError_eq_ok.mpr (Proc.runOn_eq_ok.mpr ⟨hconvert, rfl⟩),
      Proc.addU64_bind_eq_ok.mpr ⟨harray, Proc.addU64_bind_eq_ok.mpr ⟨hinfo,
        Proc.addU64_bind_eq_ok.mpr ⟨hstack, rfl⟩⟩⟩⟩⟩⟩, ?_⟩
  have hmap : defaultPhysicalMemoryOffset + p.regions ≠ 0 := by
    rw [hr]
    decide
  have haligned : defaultPhysicalMemoryOffset % 4096 = 0 := by decide
  simp only [BootInfo.validate, ne_eq, not_true_eq_false, ↓reduceIte, Nat.lt_irrefl, hcount,
    or_false, hmap, haligned]
  exact hregions

/-- On the large machine each run that the kernel's allocator returns is mapped. -/
theorem allocatable_frames_mapped_large_machine :
    ∃ handoff m' frames,
      loadAndStart (largeMachine 0x600000) (fun _ ↦ 0) = some (.ok handoff, m') ∧
      setupMemory (List.replicate bitmapWords 0#64) handoff.bootInfo handoff.regions =
        some (.ok frames) ∧
      ∀ f a', allocate frames = some (.ok f, a') →
        walk m' handoff.cr3 (handoff.bootInfo.physicalMemoryOffset + (f * frameSize + 0)) =
          some ⟨f * frameSize + 0, .readWrite⟩ := by
  obtain ⟨handoff, m', hrun, hvalid⟩ := loadAndStart_largeMachine
  have hregions := (BootInfo.validate_eq_ok hvalid).1
  obtain ⟨frames, hsetup, -⟩ := setupMemory_spec (validateMemoryMap_eq_ok_iff.mp hregions)
    (List.replicate bitmapWords 0#64) handoff.bootInfo
  have hcover : Covered largeMap largeMap := fun d hd hty address hc ↦
    ⟨d, hd, by rw [hty]; rfl, hc⟩
  have hmapped := allocatable_frames_mapped hrun rfl hcover hvalid List.length_replicate hsetup
    ⟨frames, []⟩ .start
  exact ⟨handoff, m', frames, hrun, hsetup, fun f a' halloc ↦
    hmapped.1 f 1 a' (.inl ⟨halloc, rfl⟩) f (mem_runOf.mpr ⟨Nat.le_refl _, by omega⟩) 0
      (by decide)⟩

end LokoOS.Kernel
