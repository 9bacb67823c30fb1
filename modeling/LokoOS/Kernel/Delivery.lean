import LokoOS.Boot.Accesses
import LokoOS.BootProtocol.Records
import LokoOS.Kernel.Outcome

/-!
# The boot records cross the boundary as bytes

`boot/loko-boot/src/main.rs:205–252` and `kernel/loko-kernel/src/main.rs:80–101`. The
bootloader writes the regions and the record to pages that it reserved, under their physical
addresses. The kernel reads them through its page tables, under their window addresses, and
finds the second by a pointer in the first.
-/

namespace LokoOS.Boot
open LokoOS.Base LokoOS.BootProtocol

/-- Memory once the records are written to the reserved pages; `main.rs:220–252`. -/
def Prepared.deliver (p : Prepared) (handoff : Handoff) (m : Memory) : Memory :=
  (m.store p.regions
      ((MemoryRegion.layout.array handoff.regions.length).encode handoff.regions)).store
    p.bootInfoFrame (BootInfo.layout.encode handoff.bootInfo)

/-- The answers of the firmware that are copied into the record have values of their types. -/
structure Firmware.InType (fw : Firmware) : Prop where
  kernelPages_le : ∀ address, fw.kernelPages = some address → address ≤ u64Max
  rsdp_le : fw.rsdp ≤ u64Max
  framebuffer : fw.framebuffer.InType

/-- The pages granted for the records overlap neither each other nor the page tables. -/
structure Firmware.PagesApart (fw : Firmware) : Prop where
  regions_arena : ∀ regions arena, fw.regions = some regions → fw.arena = some arena →
    regions + memoryMapPages * pageSize ≤ arena ∨ arena + arenaFrameCount * pageSize ≤ regions
  bootInfo_arena : ∀ frame arena, fw.bootInfoFrame = some frame → fw.arena = some arena →
    frame + pageSize ≤ arena ∨ arena + arenaFrameCount * pageSize ≤ frame
  bootInfo_regions : ∀ frame regions, fw.bootInfoFrame = some frame → fw.regions = some regions →
    frame + pageSize ≤ regions ∨ regions + memoryMapPages * pageSize ≤ frame

variable {fw : Firmware} {m m' : Memory} {handoff : Handoff} {p : Prepared} {image : Image}
  {map : List MemoryDescriptor}

private theorem Image.virtualExtent_le {low high : Nat}
    (h : image.virtualExtent = some (low, high)) :
    high ≤ u64Max := by
  simp only [virtualExtent, Option.bind_eq_bind, Option.bind_eq_some_iff] at h
  obtain ⟨segments, -, ⟨lowest, highest⟩, hextent, h⟩ := h
  split at h
  · cases h
    exact Nat.zero_le _
  · cases h
    exact extentOf_le hextent (Nat.zero_le _)

/-- What is handed over has an encoding, and its regions end inside their pages. -/
structure Handoff.Fits (handoff : Handoff) : Prop where
  bootInfo : BootInfo.layout.Fits handoff.bootInfo
  regions : (MemoryRegion.layout.array handoff.regions.length).Fits handoff.regions
  regions_le : handoff.regions.length ≤ regionCapacity
  len_eq : handoff.bootInfo.memoryMapLen = handoff.regions.length

private theorem Prepared.deliver_outside (p : Prepared) (h : handoff.Fits) {a : Nat}
    (hr : a < p.regions ∨ p.regions + memoryMapPages * pageSize ≤ a)
    (hb : a < p.bootInfoFrame ∨ p.bootInfoFrame + pageSize ≤ a) :
    p.deliver handoff m a = m a := by
  have hregions : _ = handoff.regions.length * sizeOfMemoryRegion :=
    (MemoryRegion.layout.array handoff.regions.length).length_encode h.regions
  have hinfo : _ = sizeOfBootInfo := BootInfo.layout.length_encode h.bootInfo
  have hcap : handoff.regions.length * sizeOfMemoryRegion ≤ memoryMapPages * pageSize :=
    (Nat.mul_le_mul_right _ h.regions_le).trans (by decide)
  have hpage : sizeOfBootInfo ≤ pageSize := by decide
  rw [deliver, Memory.store_outside (by omega), Memory.store_outside (by omega)]

private theorem Prepared.Granted.deliver_arena (hgranted : p.Granted fw) (hapart : fw.PagesApart)
    {segments : List Segment} (hready : p.Ready fw segments m') (h : handoff.Fits) {a : Nat}
    (ha : p.tables.InArena a) : p.deliver handoff m' a = m' a := by
  have hleft := hapart.regions_arena _ _ hready.regions_eq hgranted.arena_eq
  have hright := hapart.bootInfo_arena _ _ hready.bootInfoFrame_eq hgranted.arena_eq
  obtain ⟨hlo, hhi⟩ := ha
  rw [hgranted.frames_eq] at hhi
  exact p.deliver_outside h (by omega) (by omega)

private theorem Prepared.decode_delivered (hapart : fw.PagesApart) {segments : List Segment}
    (hready : p.Ready fw segments m') (h : handoff.Fits) :
    BootInfo.layout.decode ((p.deliver handoff m').load p.bootInfoFrame sizeOfBootInfo) =
        some handoff.bootInfo ∧
      (MemoryRegion.layout.array handoff.regions.length).decode
        ((p.deliver handoff m').load p.regions (handoff.regions.length * sizeOfMemoryRegion)) =
          some handoff.regions := by
  have hinfo : _ = sizeOfBootInfo := BootInfo.layout.length_encode h.bootInfo
  have hcap : handoff.regions.length * sizeOfMemoryRegion ≤ memoryMapPages * pageSize :=
    (Nat.mul_le_mul_right _ h.regions_le).trans (by decide)
  have hpage : sizeOfBootInfo ≤ pageSize := by decide
  have hpages := hapart.bootInfo_regions _ _ hready.bootInfoFrame_eq hready.regions_eq
  constructor
  · exact BootInfo.layout.decode_load_store h.bootInfo _ _
  · rw [deliver, Memory.load_store_disjoint (by omega)]
    exact (MemoryRegion.layout.array _).decode_load_store h.regions _ _

end LokoOS.Boot

namespace LokoOS.Kernel
open LokoOS.Base LokoOS.BootProtocol LokoOS.Memory LokoOS.Boot FrameAllocator

/-- Read the record that a pointer points to, and the regions that the record points to, through
the page tables; `main.rs:96,167`. Nothing is read of an absent record. -/
def receive (memory : Memory) (cr3 pointer : Nat) :
    Option (Option BootInfo × List MemoryRegion) := do
  if pointer = 0 then return (none, [])
  let bytes ← loadBytes memory cr3 pointer sizeOfBootInfo
  let info ← BootInfo.layout.decode bytes
  let array ← loadBytes memory cr3 info.memoryMap (info.memoryMapLen * sizeOfMemoryRegion)
  let regions ← (MemoryRegion.layout.array info.memoryMapLen).decode array
  return (some info, regions)

variable {fw : Firmware} {m m' : Memory} {handoff : Handoff} {p : Boot.Prepared}
  {map : List MemoryDescriptor} {bitmap : List (BitVec 64)}

private theorem loadBytes_handed {memory : Memory} {physical n : Nat}
    (hmapped : ∀ a, p.Handed a → walk memory p.tables.cr3Value (defaultPhysicalMemoryOffset + a) =
      some ⟨a, .readWrite⟩)
    (hin : ∀ i < n, p.Handed (physical + i)) :
    loadBytes memory p.tables.cr3Value (defaultPhysicalMemoryOffset + physical) n =
      some (memory.load physical n) := by
  apply loadBytes_of_walk
  intro i hi
  rw [Nat.add_assoc]
  exact hmapped _ (hin i hi)

private theorem translated_fits (hm : FirmwareMap map) {r : MemoryRegion}
    (hr : r ∈ translated map) :
    MemoryRegion.layout.Fits r := by
  have hin := (hm.wellFormed hr).in_range
  obtain ⟨d, -, -, rfl⟩ := mem_translated.mp hr
  rw [MemoryRegion.fits_iff]
  exact ⟨by omega, by omega, Nat.zero_le _⟩

private theorem handoff_fits (hprepare : prepareHandover fw m = some (.ok p, m'))
    (hrun : loadAndStart fw m = some (.ok handoff, m')) (hfinal : FirmwareMap fw.finalMap)
    (htypes : fw.InType) : handoff.Fits := by
  obtain ⟨hlen, hperm, -⟩ := handoff_regions hrun hfinal
  obtain ⟨hinfo, hle⟩ := loadAndStart_described hrun hprepare
  have hgranted := prepareHandover_granted hprepare
  obtain ⟨high, hextent, hhigh⟩ := hgranted.extent
  have hend := Image.virtualExtent_le hextent
  have hkernel := htypes.kernelPages_le _ hgranted.kernel_eq
  have hcap : handoff.regions.length ≤ regionCapacity := by
    rw [hperm.length_eq, length_kept]
    exact Nat.min_le_left _ _
  have hcount : handoff.bootInfo.memoryMapLen ≤ u64Max := by
    rw [hlen]
    exact hcap.trans (by decide)
  constructor
  · rw [hinfo, BootInfo.fits_iff]
    dsimp only
    exact ⟨by decide, by decide, by decide, by decide, hle, hcount, by decide, htypes.rsdp_le,
      hkernel, by omega, by omega, Framebuffer.fits_of_inType htypes.framebuffer, by decide,
      by decide⟩
  · exact ⟨rfl, fun r hr ↦ translated_fits hfinal (List.mem_of_mem_take (hperm.mem_iff.mp hr))⟩
  · exact hcap
  · exact hlen

/-- A boot that reaches the jump on a firmware that keeps to its promises: what is handed over
lies in memory that it reported as installed, below the clamp of the window, its final map is
well formed, its answers have values of their types, and its pages do not overlap. -/
structure Delivered (fw : Firmware) (m m' : Memory) (p : Boot.Prepared) (handoff : Handoff)
    (map : List MemoryDescriptor) : Prop where
  prepare : prepareHandover fw m = some (.ok p, m')
  run : loadAndStart fw m = some (.ok handoff, m')
  map_eq : fw.memoryMap = some map
  placed : ∀ a, p.Handed a → InstalledRam map a ∧ a < maxMappedPhysical
  final : FirmwareMap fw.finalMap
  types : fw.InType
  apart : fw.PagesApart

/-- Writing the records disturbs no byte of the tables. -/
theorem Delivered.arena_eq (h : Delivered fw m m' p handoff map) {a : Nat}
    (ha : p.tables.InArena a) : p.deliver handoff m' a = p.tables.memory a := by
  obtain ⟨segments, hready⟩ := prepareHandover_ok h.prepare
  rw [← hready.memory_eq]
  exact (prepareHandover_granted h.prepare).deliver_arena h.apart hready
    (handoff_fits h.prepare h.run h.final h.types) ha

/-- The jump is made with the root of the tables. -/
theorem Delivered.cr3_eq (h : Delivered fw m m' p handoff map) :
    handoff.cr3 = p.tables.cr3Value := by
  obtain ⟨p', hprepare, hcr3, -⟩ := loadAndStart_ok h.run
  rw [h.prepare] at hprepare
  cases hprepare
  exact hcr3

/-- Writing the records disturbs no translation. -/
theorem Delivered.walk_eq (h : Delivered fw m m' p handoff map) (address : Nat) :
    walk (p.deliver handoff m') handoff.cr3 address = walk m' handoff.cr3 address := by
  obtain ⟨segments, hready⟩ := prepareHandover_ok h.prepare
  rw [h.cr3_eq, hready.memory_eq]
  apply hready.wf.walk_congr
  intro a ha
  rw [← hready.memory_eq]
  exact (h.arena_eq ha).trans (congrFun hready.memory_eq.symm a)

/-- What is handed over is mapped at its window addresses. -/
theorem Delivered.handed_mapped (h : Delivered fw m m' p handoff map) {a : Nat}
    (ha : p.Handed a) : walk (p.deliver handoff m') handoff.cr3
      (defaultPhysicalMemoryOffset + a) = some ⟨a, .readWrite⟩ := by
  obtain ⟨segments, hready⟩ := prepareHandover_ok h.prepare
  obtain ⟨hram, hlow⟩ := h.placed a ha
  rw [h.walk_eq, h.cr3_eq, hready.walk_offset_iff h.map_eq hram]
  exact ⟨by simp only [maxMappedPhysical, defaultPhysicalMemoryOffset, u64Max] at *; omega,
    .inl hlow⟩

/-- The kernel reads the record and the regions that the bootloader wrote. -/
theorem Delivered.receive_eq (h : Delivered fw m m' p handoff map) :
    receive (p.deliver handoff m') handoff.cr3 handoff.bootInfoAddress =
      some (some handoff.bootInfo, handoff.regions) := by
  obtain ⟨p', hprepare, -, -, hpointer, hmapAddress, -⟩ := loadAndStart_ok h.run
  rw [h.prepare] at hprepare
  cases hprepare
  obtain ⟨segments, hready⟩ := prepareHandover_ok h.prepare
  have hfits := handoff_fits h.prepare h.run h.final h.types
  obtain ⟨hinfo, hregions⟩ := Prepared.decode_delivered h.apart hready hfits
  have hnull : defaultPhysicalMemoryOffset + p.bootInfoFrame ≠ 0 := by
    have : defaultPhysicalMemoryOffset ≠ 0 := by decide
    omega
  have hcap : handoff.regions.length * sizeOfMemoryRegion ≤ regionCapacity * sizeOfMemoryRegion :=
    Nat.mul_le_mul_right _ hfits.regions_le
  have hmapped : ∀ a, p.Handed a → walk (p.deliver handoff m') p.tables.cr3Value
      (defaultPhysicalMemoryOffset + a) = some ⟨a, .readWrite⟩ := by
    intro a ha
    rw [← h.cr3_eq]
    exact h.handed_mapped ha
  rw [receive, h.cr3_eq, hpointer, if_neg hnull, loadBytes_handed hmapped fun i hi ↦
    .inr (.inr (by omega))]
  simp only [Option.bind_eq_bind, Option.bind_some, hinfo, hmapAddress, hfits.len_eq]
  rw [loadBytes_handed hmapped fun i hi ↦ .inr (.inl (by omega)), Option.bind_some, hregions]
  rfl

/-- What the kernel reads through its page tables, from the pointer it is given on, is what the
bootloader wrote: the records survive the change of address space, byte for byte, and writing
them disturbs no translation. What is handed over lies in installed memory below the clamp of
the window. -/
theorem receive_delivered (hprepare : prepareHandover fw m = some (.ok p, m'))
    (hrun : loadAndStart fw m = some (.ok handoff, m')) (hmap : fw.memoryMap = some map)
    (hplaced : ∀ a, p.Handed a → InstalledRam map a ∧ a < maxMappedPhysical)
    (hfinal : FirmwareMap fw.finalMap) (htypes : fw.InType) (hapart : fw.PagesApart) :
    (∀ address, walk (p.deliver handoff m') handoff.cr3 address = walk m' handoff.cr3 address) ∧
      receive (p.deliver handoff m') handoff.cr3 handoff.bootInfoAddress =
        some (some handoff.bootInfo, handoff.regions) := by
  have h : Delivered fw m m' p handoff map :=
    ⟨hprepare, hrun, hmap, hplaced, hfinal, htypes, hapart⟩
  exact ⟨h.walk_eq, h.receive_eq⟩

private theorem largeMachine_inType (stack : Nat) : (largeMachine stack).InType where
  kernelPages_le address h := by
    have : 0x100000 = address := Option.some.inj h
    simp only [u64Max]
    omega
  rsdp_le := Nat.zero_le _
  framebuffer := ⟨Nat.zero_le _, Nat.zero_le _, Nat.zero_le _, Nat.zero_le _, Nat.zero_le _⟩

private theorem largeMachine_pagesApart (stack : Nat) : (largeMachine stack).PagesApart where
  regions_arena regions arena hr ha := by
    have hr : 0x400000 = regions := Option.some.inj hr
    have ha : 0x200000 = arena := Option.some.inj ha
    simp only [arenaFrameCount, pageSize]
    omega
  bootInfo_arena frame arena hf ha := by
    have hf : 0x500000 = frame := Option.some.inj hf
    have ha : 0x200000 = arena := Option.some.inj ha
    simp only [arenaFrameCount, pageSize]
    omega
  bootInfo_regions frame regions hf hr := by
    have hf : 0x500000 = frame := Option.some.inj hf
    have hr : 0x400000 = regions := Option.some.inj hr
    simp only [memoryMapPages, pageSize]
    omega

/-- The large machine boots, and what it hands over is accepted. -/
theorem delivered_largeMachine :
    ∃ p handoff m', Delivered (largeMachine 0x600000) (fun _ ↦ 0) m' p handoff largeMap ∧
      p.stack = 0x600000 ∧ p.kernelPhysical = 0x100000 ∧ p.kernelSpan = 16 ∧
      handoff.bootInfo.validate handoff.regions = .ok () := by
  obtain ⟨handoff, m', hrun, hvalid⟩ := loadAndStart_largeMachine
  obtain ⟨p, hprepare, -⟩ := loadAndStart_ok hrun
  have hready := prepareHandover_largeMachine 0x600000 (by decide) (fun _ ↦ 0)
  rw [hprepare] at hready
  obtain ⟨_, _, he, hs, hr, hb, hk, hspan, -⟩ := hready
  cases he
  refine ⟨p, handoff, m', ⟨hprepare, hrun, rfl, ?_, firmwareMap_largeMap, largeMachine_inType _,
    largeMachine_pagesApart _⟩, hs, hk, hspan, hvalid⟩
  intro a ha
  have hlt := largeMachine_handed hs hr hb ha
  exact ⟨installedRam_largeMap (by omega), by simp only [maxMappedPhysical]; omega⟩

/-- The kernel of the large machine reads the record and the regions that were written. -/
theorem receive_delivered_large_machine :
    ∃ p handoff m', prepareHandover (largeMachine 0x600000) (fun _ ↦ 0) = some (.ok p, m') ∧
      loadAndStart (largeMachine 0x600000) (fun _ ↦ 0) = some (.ok handoff, m') ∧
      receive (p.deliver handoff m') handoff.cr3 handoff.bootInfoAddress =
        some (some handoff.bootInfo, handoff.regions) := by
  obtain ⟨p, handoff, m', h, -⟩ := delivered_largeMachine
  exact ⟨p, handoff, m', h.prepare, h.run, (receive_delivered h.prepare h.run h.map_eq h.placed
    h.final h.types h.apart).2⟩

end LokoOS.Kernel
