import LokoOS.Boot.AddressSpace
import LokoOS.Boot.ConvertMap

/-!
# The handover

`boot/loko-boot/src/main.rs:99–277`. The bootloader reads the kernel, reserves memory,
copies the kernel, builds the page tables, and at last translates the memory map and jumps.
What the firmware answers is a parameter; the records written to the reserved pages are
values here.
-/

namespace LokoOS.Boot
open LokoOS.Base LokoOS.BootProtocol

/-- Pages of stack for the kernel's first thread; `main.rs:58`. -/
def kernelStackPages : Nat := 16

/-- Pages for the converted memory map; `main.rs:62`. -/
def memoryMapPages : Nat := 8

/-- How many regions those pages hold; `main.rs:211`. -/
def regionCapacity : Nat := memoryMapPages * pageSize / sizeOfMemoryRegion

/-- The slots of the region array before the conversion, which are zeroed pages. -/
def zeroedRegions : RegionArray := List.replicate regionCapacity ⟨0, 0, .usable, 0⟩

/-- What the firmware answers: the bytes of the system file, the pages that each allocation
was given, the screen, the ACPI tables, and the memory maps before and after boot services
end. -/
structure Firmware where
  kernelFile : Except String (List UInt8)
  kernelBuffer : Option Nat
  kernelPages : Option Nat
  arena : Option Nat
  stack : Option Nat
  regions : Option Nat
  bootInfoFrame : Option Nat
  framebuffer : Framebuffer
  rsdp : Nat
  memoryMap : Option (List MemoryDescriptor)
  finalMap : List MemoryDescriptor

/-- Allocate zeroed pages; `main.rs:325`. -/
def allocatePages (granted : Option Nat) (pages : Nat) : Proc Memory String Nat := do
  let pointer ← Proc.orFail granted
    "LokoOS couldn't start: there isn't enough memory in this device."
  let bytes ← Proc.lift (mulU64 pages pageSize)
  Proc.mapError Empty.elim (storeBytes pointer (List.replicate bytes 0))
  pure pointer

/-- Read the kernel into whole pages; `main.rs:282`. -/
def readKernel (file : Except String (List UInt8)) (buffer : Option Nat) :
    Proc Memory String (List UInt8) := do
  let bytes ← Proc.ofExcept file
  Proc.failIf (bytes.length = 0) "The LokoOS system file on this device is empty."
  let pages := divCeil bytes.length pageSize
  let buffer ← allocatePages buffer pages
  Proc.mapError Empty.elim (storeBytes buffer bytes)
  pure (bytes ++ List.replicate (pages * pageSize - bytes.length) 0)

/-- The highest end of installed memory, from a highest end so far; `main.rs:430–435`. -/
def highestRamEnd : List MemoryDescriptor → Nat → Option Nat
  | [], highest => some highest
  | d :: rest, highest =>
    if isInstalledRam d.ty then do
      let len ← mulU64 d.pageCount pageSize
      let ramEnd ← addU64 d.physStart len
      highestRamEnd rest (max highest ramEnd)
    else highestRamEnd rest highest

/-- The highest physical address that installed memory reaches; `main.rs:426`. -/
def highestRamAddress (map : Option (List MemoryDescriptor)) : Proc Memory String Nat := do
  let map ← Proc.orFail map "LokoOS couldn't read this device's memory layout."
  let highest ← Proc.lift (highestRamEnd map 0)
  pure (min highest maxMappedPhysical)

/-- Make the page tables of an address space; `main.rs:139–202`. -/
def buildTables (image : Image) (kernelLow kernelPhysical arena highestRam : Nat)
    (fb : Framebuffer) : Proc Memory String PageTables := do
  let memory ← Proc.get
  let made ← Proc.lift (PageTables.new memory arena arenaFrameCount)
  let tables ← Proc.mapError PagingError.message (Proc.ofExcept made)
  let built ← Proc.runOn tables (buildAddressSpace image kernelLow kernelPhysical highestRam fb)
  Proc.modify fun _ ↦ built.2.memory
  pure built.2

/-- What is ready when the page tables are complete. -/
structure Prepared where
  image : Image
  kernelLow : Nat
  kernelSpan : Nat
  kernelPhysical : Nat
  stack : Nat
  regions : Nat
  bootInfoFrame : Nat
  highestRam : Nat
  tables : PageTables

/-- Stages 2 to 5 of `load_and_start`; `main.rs:101–207`. -/
def prepareHandover (fw : Firmware) : Proc Memory String Prepared := do
  let kernelBytes ← readKernel fw.kernelFile fw.kernelBuffer
  let parsed ← Proc.mapError ElfError.message (Proc.runOn () (Image.parse kernelBytes))
  let image := parsed.1
  let extent ← Proc.lift image.virtualExtent
  let kernelSpan ← Proc.lift (subU64 extent.2 extent.1)
  let kernelPhysical ← allocatePages fw.kernelPages (divCeil kernelSpan pageSize)
  let arena ← allocatePages fw.arena arenaFrameCount
  let stack ← allocatePages fw.stack kernelStackPages
  let regions ← allocatePages fw.regions memoryMapPages
  let bootInfoFrame ← allocatePages fw.bootInfoFrame 1
  Proc.mapError Empty.elim (copySegments image extent.1 kernelPhysical)
  let highestRam ← highestRamAddress fw.memoryMap
  let tables ← buildTables image extent.1 kernelPhysical arena highestRam fw.framebuffer
  pure ⟨image, extent.1, kernelSpan, kernelPhysical, stack, regions, bootInfoFrame, highestRam,
    tables⟩

/-- What the kernel starts with: the registers, the record that `rdi` points to, and the
regions that the record points to. -/
structure Handoff where
  cr3 : Nat
  stackTop : Nat
  entry : Nat
  bootInfoAddress : Nat
  bootInfo : BootInfo
  regions : List MemoryRegion

/-- `load_and_start` up to its jump; `main.rs:99–277`. -/
def loadAndStart (fw : Firmware) : Proc Memory String Handoff := do
  let p ← prepareHandover fw
  let stackTopPhysical ← Proc.lift (addU64 p.stack (kernelStackPages * pageSize))
  let converted ← Proc.mapError Empty.elim
    (Proc.runOn zeroedRegions (convertMemoryMap fw.finalMap regionCapacity))
  let memoryMap ← Proc.lift (addU64 defaultPhysicalMemoryOffset p.regions)
  let bootInfoAddress ← Proc.lift (addU64 defaultPhysicalMemoryOffset p.bootInfoFrame)
  let stackTop ← Proc.lift (addU64 defaultPhysicalMemoryOffset stackTopPhysical)
  pure
    { cr3 := p.tables.cr3Value
      stackTop := stackTop
      entry := p.image.entry
      bootInfoAddress := bootInfoAddress
      bootInfo :=
        { magic := bootMagic
          versionMajor := protocolVersionMajor
          versionMinor := protocolVersionMinor
          size := sizeOfBootInfo
          memoryMap := memoryMap
          memoryMapLen := converted.1
          physicalMemoryOffset := defaultPhysicalMemoryOffset
          rsdpAddr := fw.rsdp
          kernelPhysicalBase := p.kernelPhysical
          kernelVirtualBase := p.kernelLow
          kernelSize := p.kernelSpan
          framebuffer := fw.framebuffer
          flags := 0
          reserved := 0 }
      regions := converted.2.take converted.1 }

/-! ### What is ready when the tables are complete -/

variable {fw : Firmware} {m m' : Memory} {p : Prepared} {map : List MemoryDescriptor}
  {segments : List Segment}

/-- Installed memory reaches the byte at `address`. -/
def InstalledRam (map : List MemoryDescriptor) (address : Nat) : Prop :=
  ∃ d ∈ map, isInstalledRam d.ty = true ∧ d.Covers address

/-- An allocation that returned gave the pages that the firmware granted. -/
theorem allocatePages_ok {granted : Option Nat} {pages address : Nat}
    (h : allocatePages granted pages m = some (.ok address, m')) : granted = some address := by
  obtain ⟨pointer, m₁, hgrant, h⟩ := Proc.bind_eq_ok.mp h
  obtain ⟨bytes, m₂, -, h⟩ := Proc.bind_eq_ok.mp h
  obtain ⟨_, m₃, -, h⟩ := Proc.bind_eq_ok.mp h
  cases h
  exact (Proc.orFail_eq_ok.mp hgrant).1

/-- The highest end is at or above the end of every range of installed memory. -/
theorem highestRamEnd_spec {highest highest' : Nat}
    (h : highestRamEnd map highest = some highest') :
    highest ≤ highest' ∧ ∀ address, InstalledRam map address → address < highest' := by
  induction map generalizing highest with
  | nil =>
    cases h
    exact ⟨Nat.le_refl _, fun a ⟨d, hd, _⟩ ↦ by cases hd⟩
  | cons d rest ih =>
    rw [highestRamEnd] at h
    split at h
    · next hram =>
      obtain ⟨len, hmul, h⟩ := Option.bind_eq_some_iff.mp h
      obtain ⟨ramEnd, hadd, h⟩ := Option.bind_eq_some_iff.mp h
      obtain ⟨-, rfl⟩ := mulU64_eq_some.mp hmul
      obtain ⟨-, rfl⟩ := addU64_eq_some.mp hadd
      obtain ⟨hle, hall⟩ := ih h
      refine ⟨by omega, fun a ha ↦ ?_⟩
      obtain ⟨e, he, hr, hc⟩ := ha
      rcases List.mem_cons.mp he with rfl | he
      · obtain ⟨-, hhi⟩ := hc
        rw [MemoryDescriptor.len] at hhi
        clear hall
        omega
      · exact hall a ⟨e, he, hr, hc⟩
    · next hram =>
      obtain ⟨hle, hall⟩ := ih h
      refine ⟨hle, fun a ha ↦ ?_⟩
      obtain ⟨e, he, hr, hc⟩ := ha
      rcases List.mem_cons.mp he with rfl | he
      · exact absurd hr hram
      · exact hall a ⟨e, he, hr, hc⟩

/-- The kernel's segments lie where copying them succeeded, so inside physical memory. -/
theorem copySegments_placed {image : Image} {kernelLow kernelPhysical : Nat}
    (hsegs : image.segments = some segments) (hv : ∀ s ∈ segments, s.Valid image.data)
    (h : copySegments image kernelLow kernelPhysical m = some (.ok (), m')) :
    ∀ s ∈ segments, ∀ i < s.pages,
      s.destination kernelLow kernelPhysical + i * pageSize < 2 ^ 52 := by
  rw [copySegments, hsegs, Proc.run_bind_ok (Proc.run_lift_some _ _)] at h
  intro s hs i hi
  have hlt := mul_lt_of_lt_divCeil hi
  have hfit := ((copyAll_ok hv h).1 s hs).2 (by omega)
  simp only [physicalLimit] at hfit
  omega

/-- The tables that were built represent the intended address space, in the memory they
were built in. -/
theorem buildTables_ok {image : Image} {kernelLow kernelPhysical arena highestRam : Nat}
    {fb : Framebuffer} {t : PageTables} (hsegs : image.segments = some segments)
    (hphysical : ∀ s ∈ segments, ∀ i < s.pages,
      s.destination kernelLow kernelPhysical + i * pageSize < 2 ^ 52)
    (hram : highestRam ≤ maxMappedPhysical)
    (h : buildTables image kernelLow kernelPhysical arena highestRam fb m = some (.ok t, m')) :
    m' = t.memory ∧ t.WF ∧
      AddressSpace kernelLow kernelPhysical highestRam segments fb t.view := by
  obtain ⟨memory, m₁, -, h⟩ := Proc.bind_eq_ok.mp h
  obtain ⟨made, m₂, hmade, h⟩ := Proc.bind_eq_ok.mp h
  obtain ⟨t₀, m₃, hok, h⟩ := Proc.bind_eq_ok.mp h
  obtain ⟨built, m₄, hbuild, h⟩ := Proc.bind_eq_ok.mp h
  obtain ⟨_, m₅, hmodify, h⟩ := Proc.bind_eq_ok.mp h
  cases hmodify
  cases h
  obtain ⟨hnew, -⟩ := Proc.lift_eq_ok.mp hmade
  obtain ⟨rfl, -⟩ := Proc.ofExcept_eq_ok.mp (Proc.mapError_eq_ok.mp hok)
  obtain ⟨hrun, -⟩ := Proc.runOn_eq_ok.mp hbuild
  obtain ⟨ha, hpos, hbelow⟩ := PageTables.new_eq_ok hnew
  obtain ⟨t₁, hnew₁, hwf, hview, -⟩ :=
    PageTables.new_spec memory arena arenaFrameCount ha hpos hbelow
  rw [hnew] at hnew₁
  cases hnew₁
  obtain ⟨hkeeps, hspace⟩ := buildAddressSpace_ok hwf hview hsegs hphysical hram hrun
  exact ⟨rfl, hkeeps.wf, hspace⟩

/-- The preparation that returned: the addresses are those the firmware granted, and the
tables represent the intended address space up to the clamped end of installed memory. -/
structure Prepared.Ready (p : Prepared) (fw : Firmware) (segments : List Segment) (m : Memory) :
    Prop where
  segments_eq : p.image.segments = some segments
  stack_eq : fw.stack = some p.stack
  regions_eq : fw.regions = some p.regions
  bootInfoFrame_eq : fw.bootInfoFrame = some p.bootInfoFrame
  memory_eq : m = p.tables.memory
  wf : p.tables.WF
  space : AddressSpace p.kernelLow p.kernelPhysical p.highestRam segments fw.framebuffer
    p.tables.view
  highest : ∃ map highest, fw.memoryMap = some map ∧ highestRamEnd map 0 = some highest ∧
    p.highestRam = min highest maxMappedPhysical

/-- Stages 2 to 5 return only when everything is ready. -/
theorem prepareHandover_ok (h : prepareHandover fw m = some (.ok p, m')) :
    ∃ segments, p.Ready fw segments m' := by
  obtain ⟨kernelBytes, m₁, -, h⟩ := Proc.bind_eq_ok.mp h
  obtain ⟨parsed, m₂, hparse, h⟩ := Proc.bind_eq_ok.mp h
  obtain ⟨extent, m₃, -, h⟩ := Proc.bind_eq_ok.mp h
  obtain ⟨kernelSpan, m₄, -, h⟩ := Proc.bind_eq_ok.mp h
  obtain ⟨kernelPhysical, m₅, -, h⟩ := Proc.bind_eq_ok.mp h
  obtain ⟨arena, m₆, -, h⟩ := Proc.bind_eq_ok.mp h
  obtain ⟨stack, m₇, hstack, h⟩ := Proc.bind_eq_ok.mp h
  obtain ⟨regions, m₈, hregions, h⟩ := Proc.bind_eq_ok.mp h
  obtain ⟨bootInfoFrame, m₉, hframe, h⟩ := Proc.bind_eq_ok.mp h
  obtain ⟨_, m₁₀, hcopy, h⟩ := Proc.bind_eq_ok.mp h
  obtain ⟨highestRam, m₁₁, hram, h⟩ := Proc.bind_eq_ok.mp h
  obtain ⟨tables, m₁₂, htables, h⟩ := Proc.bind_eq_ok.mp h
  cases h
  obtain ⟨hrun, -⟩ := Proc.runOn_eq_ok.mp (Proc.mapError_eq_ok.mp hparse)
  obtain ⟨hdata, segments, hsegs, -, hvalid⟩ := Image.parse_eq_ok hrun
  rw [← hdata] at hvalid
  obtain ⟨map, m₁₄, hmap, hram⟩ := Proc.bind_eq_ok.mp hram
  obtain ⟨highest, m₁₅, hhighest, hram⟩ := Proc.bind_eq_ok.mp hram
  cases hram
  obtain ⟨hmap, -⟩ := Proc.orFail_eq_ok.mp hmap
  obtain ⟨hhighest, -⟩ := Proc.lift_eq_ok.mp hhighest
  obtain ⟨hmem, hwf, hspace⟩ := buildTables_ok hsegs
    (copySegments_placed hsegs hvalid (Proc.mapError_eq_ok.mp hcopy)) (Nat.min_le_right _ _)
    htables
  exact ⟨segments, hsegs, allocatePages_ok hstack, allocatePages_ok hregions,
    allocatePages_ok hframe, hmem, hwf, hspace, map, highest, hmap, hhighest, rfl⟩

/-- The jump is reached only when everything is ready: the root table is that of the tables,
the addresses passed are window addresses, and the regions are those of the conversion. -/
theorem loadAndStart_ok {handoff : Handoff} (h : loadAndStart fw m = some (.ok handoff, m')) :
    ∃ p, prepareHandover fw m = some (.ok p, m') ∧ handoff.cr3 = p.tables.cr3Value ∧
      handoff.stackTop =
        defaultPhysicalMemoryOffset + (p.stack + kernelStackPages * pageSize) ∧
      handoff.bootInfoAddress = defaultPhysicalMemoryOffset + p.bootInfoFrame ∧
      handoff.bootInfo.memoryMap = defaultPhysicalMemoryOffset + p.regions ∧
      handoff.bootInfo.physicalMemoryOffset = defaultPhysicalMemoryOffset ∧
      ∃ count array, convertMemoryMap fw.finalMap regionCapacity zeroedRegions =
        some (.ok count, array) ∧ handoff.bootInfo.memoryMapLen = count ∧
        handoff.regions = array.take count := by
  obtain ⟨p, m₁, hprepare, h⟩ := Proc.bind_eq_ok.mp h
  have htop := (Proc.addU64_bind_eq_ok.mp h).2
  obtain ⟨converted, m₂, hconvert, h⟩ := Proc.bind_eq_ok.mp htop
  rw [Proc.addU64_bind_eq_ok, Proc.addU64_bind_eq_ok, Proc.addU64_bind_eq_ok] at h
  obtain ⟨-, -, -, h⟩ := h
  cases h
  obtain ⟨hrun, rfl⟩ := Proc.runOn_eq_ok.mp (Proc.mapError_eq_ok.mp hconvert)
  exact ⟨p, hprepare, rfl, rfl, rfl, rfl, rfl, converted.1, converted.2, hrun, rfl, rfl⟩

/-- The record that is handed over, with addresses that fit. -/
theorem loadAndStart_described {handoff : Handoff}
    (h : loadAndStart fw m = some (.ok handoff, m'))
    (hprepare : prepareHandover fw m = some (.ok p, m')) :
    handoff.bootInfo =
      { magic := bootMagic
        versionMajor := protocolVersionMajor
        versionMinor := protocolVersionMinor
        size := sizeOfBootInfo
        memoryMap := defaultPhysicalMemoryOffset + p.regions
        memoryMapLen := handoff.bootInfo.memoryMapLen
        physicalMemoryOffset := defaultPhysicalMemoryOffset
        rsdpAddr := fw.rsdp
        kernelPhysicalBase := p.kernelPhysical
        kernelVirtualBase := p.kernelLow
        kernelSize := p.kernelSpan
        framebuffer := fw.framebuffer
        flags := 0
        reserved := 0 } ∧
    defaultPhysicalMemoryOffset + p.regions ≤ u64Max := by
  obtain ⟨p', m₁, hprepare', h⟩ := Proc.bind_eq_ok.mp h
  have htop := (Proc.addU64_bind_eq_ok.mp h).2
  obtain ⟨converted, m₂, hconvert, h⟩ := Proc.bind_eq_ok.mp htop
  rw [Proc.addU64_bind_eq_ok, Proc.addU64_bind_eq_ok, Proc.addU64_bind_eq_ok] at h
  obtain ⟨hmap, -, -, h⟩ := h
  cases h
  obtain ⟨-, rfl⟩ := Proc.runOn_eq_ok.mp (Proc.mapError_eq_ok.mp hconvert)
  rw [hprepare] at hprepare'
  cases hprepare'
  exact ⟨rfl, hmap⟩

/-! ### Where the granted pages are -/

/-- An allocation of at least one page lies inside physical memory. -/
theorem allocatePages_fits {granted : Option Nat} {pages address : Nat}
    (h : allocatePages granted pages m = some (.ok address, m')) (hpos : 0 < pages) :
    address + pages * pageSize ≤ physicalLimit := by
  obtain ⟨pointer, m₁, -, h⟩ := Proc.bind_eq_ok.mp h
  obtain ⟨bytes, m₂, hmul, h⟩ := Proc.bind_eq_ok.mp h
  obtain ⟨_, m₃, hstore, h⟩ := Proc.bind_eq_ok.mp h
  cases h
  obtain ⟨hmul, -⟩ := Proc.lift_eq_ok.mp hmul
  obtain ⟨-, rfl⟩ := mulU64_eq_some.mp hmul
  obtain ⟨-, hfit⟩ := storeBytes_ok (Proc.mapError_eq_ok.mp hstore)
  rw [List.length_replicate] at hfit
  exact hfit (Nat.mul_ne_zero (by omega) (by decide))

/-- The tables that were built lie in the arena they were given. -/
theorem buildTables_arena {image : Image} {kernelLow kernelPhysical arena highestRam : Nat}
    {fb : Framebuffer} {t : PageTables} (hsegs : image.segments = some segments)
    (hphysical : ∀ s ∈ segments, ∀ i < s.pages,
      s.destination kernelLow kernelPhysical + i * pageSize < 2 ^ 52)
    (hram : highestRam ≤ maxMappedPhysical)
    (h : buildTables image kernelLow kernelPhysical arena highestRam fb m = some (.ok t, m')) :
    t.arenaBase = arena ∧ t.arenaFrames = arenaFrameCount := by
  obtain ⟨memory, m₁, -, h⟩ := Proc.bind_eq_ok.mp h
  obtain ⟨made, m₂, hmade, h⟩ := Proc.bind_eq_ok.mp h
  obtain ⟨t₀, m₃, hok, h⟩ := Proc.bind_eq_ok.mp h
  obtain ⟨built, m₄, hbuild, h⟩ := Proc.bind_eq_ok.mp h
  obtain ⟨_, m₅, hmodify, h⟩ := Proc.bind_eq_ok.mp h
  cases hmodify
  cases h
  obtain ⟨hnew, -⟩ := Proc.lift_eq_ok.mp hmade
  obtain ⟨rfl, -⟩ := Proc.ofExcept_eq_ok.mp (Proc.mapError_eq_ok.mp hok)
  obtain ⟨hrun, -⟩ := Proc.runOn_eq_ok.mp hbuild
  obtain ⟨ha, hpos, hbelow⟩ := PageTables.new_eq_ok hnew
  obtain ⟨t₁, hnew₁, hwf, hview, hbase, hframes, -⟩ :=
    PageTables.new_spec memory arena arenaFrameCount ha hpos hbelow
  rw [hnew] at hnew₁
  cases hnew₁
  obtain ⟨hkeeps, -⟩ := buildAddressSpace_ok hwf hview hsegs hphysical hram hrun
  exact ⟨hkeeps.base_eq.trans hbase, hkeeps.frames_eq.trans hframes⟩

/-- Where everything that the preparation reserved lies. -/
structure Prepared.Granted (p : Prepared) (fw : Firmware) : Prop where
  kernel_eq : fw.kernelPages = some p.kernelPhysical
  arena_eq : fw.arena = some p.tables.arenaBase
  frames_eq : p.tables.arenaFrames = arenaFrameCount
  kernel_fits : 0 < p.kernelSpan →
    p.kernelPhysical + divCeil p.kernelSpan pageSize * pageSize ≤ physicalLimit
  stack_fits : p.stack + kernelStackPages * pageSize ≤ physicalLimit
  regions_fits : p.regions + memoryMapPages * pageSize ≤ physicalLimit
  bootInfoFrame_fits : p.bootInfoFrame + pageSize ≤ physicalLimit
  extent : ∃ high, p.image.virtualExtent = some (p.kernelLow, high) ∧
    p.kernelLow + p.kernelSpan = high

/-- Stages 2 to 5 return only with everything in the pages the firmware granted. -/
theorem prepareHandover_granted (h : prepareHandover fw m = some (.ok p, m')) : p.Granted fw := by
  obtain ⟨kernelBytes, m₁, -, h⟩ := Proc.bind_eq_ok.mp h
  obtain ⟨parsed, m₂, hparse, h⟩ := Proc.bind_eq_ok.mp h
  obtain ⟨extent, m₃, hextent, h⟩ := Proc.bind_eq_ok.mp h
  obtain ⟨kernelSpan, m₄, hspan, h⟩ := Proc.bind_eq_ok.mp h
  obtain ⟨kernelPhysical, m₅, hkernel, h⟩ := Proc.bind_eq_ok.mp h
  obtain ⟨arena, m₆, harena, h⟩ := Proc.bind_eq_ok.mp h
  obtain ⟨stack, m₇, hstack, h⟩ := Proc.bind_eq_ok.mp h
  obtain ⟨regions, m₈, hregions, h⟩ := Proc.bind_eq_ok.mp h
  obtain ⟨bootInfoFrame, m₉, hframe, h⟩ := Proc.bind_eq_ok.mp h
  obtain ⟨_, m₁₀, hcopy, h⟩ := Proc.bind_eq_ok.mp h
  obtain ⟨highestRam, m₁₁, hram, h⟩ := Proc.bind_eq_ok.mp h
  obtain ⟨tables, m₁₂, htables, h⟩ := Proc.bind_eq_ok.mp h
  cases h
  obtain ⟨hrun, -⟩ := Proc.runOn_eq_ok.mp (Proc.mapError_eq_ok.mp hparse)
  obtain ⟨hdata, segments, hsegs, -, hvalid⟩ := Image.parse_eq_ok hrun
  rw [← hdata] at hvalid
  obtain ⟨hextent, -⟩ := Proc.lift_eq_ok.mp hextent
  obtain ⟨hspan, -⟩ := Proc.lift_eq_ok.mp hspan
  obtain ⟨map, m₁₄, -, hram⟩ := Proc.bind_eq_ok.mp hram
  obtain ⟨highest, m₁₅, -, hram⟩ := Proc.bind_eq_ok.mp hram
  cases hram
  obtain ⟨hbase, hframes⟩ := buildTables_arena hsegs
    (copySegments_placed hsegs hvalid (Proc.mapError_eq_ok.mp hcopy)) (Nat.min_le_right _ _)
    htables
  obtain ⟨hle, rfl⟩ := subU64_eq_some.mp hspan
  constructor
  · exact allocatePages_ok hkernel
  · rw [hbase]
    exact allocatePages_ok harena
  · exact hframes
  · intro hpos
    exact allocatePages_fits hkernel
      (Nat.lt_of_le_of_lt (Nat.zero_le _) (div_lt_divCeil hpos (by decide)))
  · exact allocatePages_fits hstack (by decide)
  · exact allocatePages_fits hregions (by decide)
  · have := allocatePages_fits hframe Nat.one_pos
    rwa [Nat.one_mul] at this
  · exact ⟨extent.2, hextent, Nat.add_sub_cancel' hle⟩

end LokoOS.Boot
