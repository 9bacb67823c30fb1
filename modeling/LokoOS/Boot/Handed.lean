import LokoOS.Boot.LoadAndStart

/-!
# What is handed to the kernel is mapped

`boot/loko-boot/src/main.rs:118–277,325–336,426–441`. The stack, the region array and the
boot information are passed by their addresses in the offset window. Which bytes of
installed memory can be reached there is decided by the clamp on the window.
-/

namespace LokoOS.Boot
open LokoOS.Base LokoOS.BootProtocol

/-- The byte at `a` lies in a 2 MiB page of the screen's rounded range that shares its slot
with no kernel page. -/
def ScreenReaches (segments : List Segment) (fb : Framebuffer) (a : Nat) : Prop :=
  framebufferBase fb ≤ a ∧ a < framebufferBase fb + framebufferPages fb * hugePageSize ∧
    ∀ s ∈ segments, ∀ i < s.pages, hugeNumber (s.pageAddress i) ≠ windowNumber a

/-- The byte at `a` lies in a read-write page of the kernel that is linked at the window
address of that very page. -/
def KernelReaches (segments : List Segment) (kernelLow kernelPhysical a : Nat) : Prop :=
  ∃ s ∈ segments, s.permissions = .ok .readWrite ∧ ∃ i < s.pages,
    pageNumber (s.pageAddress i) = pageNumber (defaultPhysicalMemoryOffset + a) ∧
    s.destination kernelLow kernelPhysical + i * pageSize = a / pageSize * pageSize

variable {kernelLow kernelPhysical highestRam : Nat} {segments : List Segment}
  {fb : Framebuffer} {q : PageMap}

private theorem AddressSpace.kernelReaches_of_page
    (h : AddressSpace kernelLow kernelPhysical highestRam segments fb q) {a : Nat} {leaf : Leaf}
    (hl : q.page (pageNumber (defaultPhysicalMemoryOffset + a)) = some leaf)
    (ha : a = leaf.frame + (defaultPhysicalMemoryOffset + a) % pageSize)
    (hperm : leaf.permissions = .readWrite) :
    KernelReaches segments kernelLow kernelPhysical a := by
  obtain ⟨k, hk, -⟩ := h.kernel
  obtain ⟨s, hs, i, hi, hv, hsp, hframe⟩ := h.page_eq_some hl
  refine ⟨s, hs, hperm ▸ hsp, i, hi, hv.symm, ?_⟩
  have hdest := ((hk.placed s hs).2 i hi).2.2
  simp only [defaultPhysicalMemoryOffset, pageSize] at *
  omega

private theorem AddressSpace.reaches_of_huge
    (h : AddressSpace kernelLow kernelPhysical highestRam segments fb q) {a : Nat} {leaf : Leaf}
    (hl : q.huge (windowNumber a) = some leaf)
    (ha : a = leaf.frame + (defaultPhysicalMemoryOffset + a) % hugePageSize)
    (hperm : leaf.permissions = .readWrite) :
    a < divCeil highestRam hugePageSize * hugePageSize ∨ ScreenReaches segments fb a := by
  have hfree : ∀ s ∈ segments, ∀ j < s.pages, hugeNumber (s.pageAddress j) ≠ windowNumber a := by
    intro s hs j hj hsame
    have hn := h.wf.huge_of_tabled _ (h.tabled_iff.mpr ⟨s, hs, j, hj, hsame.symm⟩)
    rw [hl] at hn
    cases hn
  rcases h.nothing_else _ _ hl with ⟨i, hi, -, rfl⟩ | ⟨i, hi, -, rfl⟩ | ⟨i, hi, -, rfl⟩
  · have hle : (i + 1) * hugePageSize ≤ divCeil highestRam hugePageSize * hugePageSize :=
      Nat.mul_le_mul_right _ hi
    left
    simp only [hugePageSize] at *
    omega
  · have hle : (i + 1) * hugePageSize ≤ framebufferPages fb * hugePageSize :=
      Nat.mul_le_mul_right _ hi
    refine .inr ⟨by simp only at ha; omega, ?_, hfree⟩
    simp only [hugePageSize] at *
    omega
  · cases hperm

private theorem AddressSpace.translate_of_screenReaches
    (h : AddressSpace kernelLow kernelPhysical highestRam segments fb q) {a : Nat}
    (hb : defaultPhysicalMemoryOffset + a ≤ u64Max) (ha : ScreenReaches segments fb a) :
    q.translate (defaultPhysicalMemoryOffset + a) = some ⟨a, .readWrite⟩ := by
  obtain ⟨hlo, hhi, hfree⟩ := ha
  have halign := framebufferBase_aligned fb
  have hi : (a - framebufferBase fb) / hugePageSize < framebufferPages fb :=
    Nat.div_lt_of_lt_mul (by rw [Nat.mul_comm]; omega)
  refine h.translate_screen_page hb hi ?_ ?_
  · simp only [hugePageSize] at *
    omega
  · rw [← Bool.not_eq_true, h.tabled_iff]
    rintro ⟨s, hs, j, hj, he⟩
    exact hfree s hs j hj he.symm

private theorem AddressSpace.translate_of_kernelReaches
    (h : AddressSpace kernelLow kernelPhysical highestRam segments fb q) {a : Nat}
    (hb : defaultPhysicalMemoryOffset + a ≤ u64Max)
    (ha : KernelReaches segments kernelLow kernelPhysical a) :
    q.translate (defaultPhysicalMemoryOffset + a) = some ⟨a, .readWrite⟩ := by
  obtain ⟨s, hs, hsp, i, hi, hv, hdest⟩ := ha
  obtain ⟨k, hk, hpage, -⟩ := h.kernel
  obtain ⟨permissions, hsp', hmapped⟩ := hk.inside s hs i hi
  rw [hsp] at hsp'
  cases hsp'
  have hc : Canonical (defaultPhysicalMemoryOffset + a) := by
    simp only [Canonical, defaultPhysicalMemoryOffset, u64Max] at *
    omega
  rw [hv] at hmapped
  rw [PageMap.translate, if_neg (not_not.mpr hc), hpage, hmapped]
  simp only [Option.some.injEq, Translation.mk.injEq, and_true]
  rw [hdest]
  simp only [defaultPhysicalMemoryOffset, pageSize]
  omega

private theorem AddressSpace.translate_offset_iff
    (h : AddressSpace kernelLow kernelPhysical highestRam segments fb q) (a : Nat) :
    q.translate (defaultPhysicalMemoryOffset + a) = some ⟨a, .readWrite⟩ ↔
      defaultPhysicalMemoryOffset + a ≤ u64Max ∧
        (a < divCeil highestRam hugePageSize * hugePageSize ∨ ScreenReaches segments fb a ∨
          KernelReaches segments kernelLow kernelPhysical a) := by
  constructor
  · intro ht
    obtain ⟨hc, hleaf⟩ := PageMap.translate_eq_some ht
    refine ⟨by simp only [Canonical, defaultPhysicalMemoryOffset, u64Max] at *; omega, ?_⟩
    rcases hleaf with ⟨leaf, hl, he⟩ | ⟨leaf, hl, he⟩
    · obtain ⟨ha, hperm⟩ := Translation.mk.inj he
      exact .inr (.inr (h.kernelReaches_of_page hl ha hperm.symm))
    · obtain ⟨ha, hperm⟩ := Translation.mk.inj he
      exact (h.reaches_of_huge hl ha hperm.symm).imp_right .inl
  · rintro ⟨hb, hlt | hscreen | hkernel⟩
    · exact translate_windowNumber h.wf hb (h.window _ (Nat.div_lt_of_lt_mul (by
        rwa [Nat.mul_comm])))
    · exact h.translate_of_screenReaches hb hscreen
    · exact h.translate_of_kernelReaches hb hkernel

/-- The bytes whose window addresses the kernel is given: the stack, the region array and
the boot information. -/
def Prepared.Handed (p : Prepared) (a : Nat) : Prop :=
  (p.stack ≤ a ∧ a < p.stack + kernelStackPages * pageSize) ∨
    (p.regions ≤ a ∧ a < p.regions + regionCapacity * sizeOfMemoryRegion) ∨
    (p.bootInfoFrame ≤ a ∧ a < p.bootInfoFrame + sizeOfBootInfo)

variable {fw : Firmware} {m m' : Memory} {p : Prepared} {map : List MemoryDescriptor}

/-- A byte of installed memory is mapped at its window address exactly when it is below the
clamp, or the screen or the kernel happens to put it there. -/
theorem Prepared.Ready.walk_offset_iff (h : p.Ready fw segments m')
    (hmap : fw.memoryMap = some map) {a : Nat} (ha : InstalledRam map a) :
    walk m' p.tables.cr3Value (defaultPhysicalMemoryOffset + a) = some ⟨a, .readWrite⟩ ↔
      defaultPhysicalMemoryOffset + a ≤ u64Max ∧
        (a < maxMappedPhysical ∨ ScreenReaches segments fw.framebuffer a ∨
          KernelReaches segments p.kernelLow p.kernelPhysical a) := by
  obtain ⟨map', highest, hmap', hhighest, hram⟩ := h.highest
  rw [hmap] at hmap'
  cases hmap'
  have hlt := (highestRamEnd_spec hhighest).2 a ha
  have hwindow : a < divCeil p.highestRam hugePageSize * hugePageSize ↔ a < maxMappedPhysical := by
    have hle := le_divCeil_mul p.highestRam (show 0 < hugePageSize by decide)
    constructor
    · intro hin
      have hpage := mul_lt_of_lt_divCeil (Nat.div_lt_of_lt_mul (by rwa [Nat.mul_comm]))
      have hclamp : p.highestRam ≤ maxMappedPhysical := hram ▸ Nat.min_le_right _ _
      simp only [maxMappedPhysical, hugePageSize] at hpage hclamp ⊢
      omega
    · intro hin
      exact Nat.lt_of_lt_of_le (by rw [hram]; exact Nat.lt_min.mpr ⟨hlt, hin⟩) hle
  rw [h.memory_eq, PageTables.walk_eq h.wf, h.space.translate_offset_iff, hwindow]

/-- What is handed to the kernel lies in installed memory. All of it is mapped at its window
addresses, read-write, exactly when every byte of it is below 64 GiB, or the screen or the
kernel happens to put it there. -/
theorem handed_mapped_iff (hrun : prepareHandover fw m = some (.ok p, m'))
    (hmap : fw.memoryMap = some map) (hsegs : p.image.segments = some segments)
    (hplaced : ∀ a, p.Handed a → InstalledRam map a) :
    (∀ a, p.Handed a →
      walk m' p.tables.cr3Value (defaultPhysicalMemoryOffset + a) = some ⟨a, .readWrite⟩) ↔
    ∀ a, p.Handed a → defaultPhysicalMemoryOffset + a ≤ u64Max ∧
      (a < maxMappedPhysical ∨ ScreenReaches segments fw.framebuffer a ∨
        KernelReaches segments p.kernelLow p.kernelPhysical a) := by
  obtain ⟨segments', hready⟩ := prepareHandover_ok hrun
  have hsame := hready.segments_eq
  rw [hsegs] at hsame
  cases hsame
  exact forall₂_congr fun a ha ↦ hready.walk_offset_iff hmap (hplaced a ha)

/-! ### A machine with memory above 64 GiB -/

/-- Memory up to 64 KiB above 64 GiB, of which the bootloader uses the ends. -/
def largeMap : List MemoryDescriptor :=
  [⟨.loaderData, 0, 2 ^ 11⟩, ⟨.conventional, 2 ^ 23, 2 ^ 24 - 2 ^ 11⟩, ⟨.loaderData, 2 ^ 36, 16⟩]

/-- A machine with that memory and no screen, whose firmware puts the kernel's stack at a
given address. -/
def largeMachine (stack : Nat) : Firmware where
  kernelFile := .ok loopKernel
  kernelBuffer := some 0x10000
  kernelPages := some 0x100000
  arena := some 0x200000
  stack := some stack
  regions := some 0x400000
  bootInfoFrame := some 0x500000
  framebuffer := .none
  rsdp := 0
  memoryMap := some largeMap
  finalMap := largeMap

private theorem allocatePages_total (address pages : Nat)
    (h : address + pages * pageSize ≤ physicalLimit) (m : Memory) :
    ∃ m', allocatePages (some address) pages m = some (.ok address, m') := by
  have hmul : mulU64 pages pageSize = some (pages * pageSize) :=
    mulU64_of_le (by simp only [physicalLimit, u64Max] at *; omega)
  rw [allocatePages, Proc.run_bind_ok (Proc.run_orFail_some _ _ _), hmul,
    Proc.run_bind_ok (Proc.run_lift_some _ _),
    Proc.run_bind_ok (Proc.mapError_eq_ok.mpr (storeBytes_of_fit (by
      rwa [List.length_replicate])))]
  exact ⟨_, Proc.run_pure _ _⟩

private theorem readKernel_total (bytes : List UInt8) (buffer : Nat) (hne : bytes.length ≠ 0)
    (h : buffer + divCeil bytes.length pageSize * pageSize ≤ physicalLimit) (m : Memory) :
    ∃ rest m', readKernel (.ok bytes) (some buffer) m = some (.ok (bytes ++ rest), m') := by
  obtain ⟨m₁, halloc⟩ := allocatePages_total buffer _ h m
  have hle := le_divCeil_mul bytes.length (show 0 < pageSize by decide)
  rw [readKernel, Proc.run_bind_ok (Proc.ofExcept_eq_ok.mpr ⟨rfl, rfl⟩),
    Proc.run_bind_ok (Proc.failIf_eq_ok (u := ()).mpr ⟨hne, rfl⟩), Proc.run_bind_ok halloc,
    Proc.run_bind_ok (Proc.mapError_eq_ok.mpr (storeBytes_of_fit (by omega)))]
  exact ⟨_, _, Proc.run_pure _ _⟩

private theorem buildTables_loopImage {highestRam : Nat} (hram : highestRam ≤ maxMappedPhysical)
    (rest : List UInt8) (m : Memory) :
    ∃ t, buildTables (loopImage.padded rest) 0xFFFFFFFF80000000 0x100000 0x200000 highestRam
      .none m = some (.ok t, t.memory) := by
  obtain ⟨t₀, hnew, hwf, hview, -, hframes, -, hnext, -⟩ :=
    PageTables.new_spec m 0x200000 arenaFrameCount (by decide) (by decide) (by decide)
  have hsegs : (loopImage.padded rest).segments = some [loopSegment] :=
    (Image.parse_append parse_loopKernel rest).2.trans segments_loopImage
  obtain ⟨t, hbuild⟩ : ∃ t, buildAddressSpace (loopImage.padded rest) 0xFFFFFFFF80000000 0x100000
      highestRam .none t₀ = some (.ok (), t) :=
    buildAddressSpace_total hwf hview hsegs (loopSegment_small (by decide) (by decide))
      loopSegment_higherHalf hram (by decide) (by rw [hnext, hframes]; decide)
  refine ⟨t, ?_⟩
  rw [buildTables, Proc.run_bind_ok (Proc.run_get _), hnew,
    Proc.run_bind_ok (Proc.run_lift_some _ _),
    Proc.run_bind_ok (Proc.mapError_eq_ok.mpr (Proc.ofExcept_eq_ok.mpr ⟨rfl, rfl⟩)),
    Proc.run_bind_ok (Proc.runOn_eq_ok.mpr ⟨hbuild, rfl⟩), Proc.run_bind_ok (Proc.run_modify _ _)]
  rfl

/-- On that machine everything is made ready, wherever the stack lies. -/
theorem prepareHandover_largeMachine (stack : Nat)
    (h : stack + kernelStackPages * pageSize ≤ physicalLimit) (m : Memory) :
    ∃ p m', prepareHandover (largeMachine stack) m = some (.ok p, m') ∧ p.stack = stack ∧
      p.regions = 0x400000 ∧ p.bootInfoFrame = 0x500000 ∧ p.kernelPhysical = 0x100000 ∧
      p.kernelSpan = 16 ∧ p.image.segments = some [loopSegment] ∧
      p.kernelLow = 0xFFFFFFFF80000000 := by
  obtain ⟨rest, m₁, hread⟩ := readKernel_total loopKernel 0x10000 (by decide) (by decide) m
  obtain ⟨hparse, hsegs⟩ := Image.parse_append parse_loopKernel rest
  have hsegs := hsegs.trans segments_loopImage
  obtain ⟨m₂, hkernel⟩ := allocatePages_total 0x100000 1 (by decide) m₁
  obtain ⟨m₃, harena⟩ := allocatePages_total 0x200000 arenaFrameCount (by decide) m₂
  obtain ⟨m₄, hstack⟩ := allocatePages_total stack kernelStackPages h m₃
  obtain ⟨m₅, hregions⟩ := allocatePages_total 0x400000 memoryMapPages (by decide) m₄
  obtain ⟨m₆, hframe⟩ := allocatePages_total 0x500000 1 (by decide) m₅
  have hsmall : loopSegment.Small 0xFFFFFFFF80000000 0x100000 :=
    loopSegment_small (by decide) (by decide)
  obtain ⟨m₇, hcopy⟩ := copySegments_small hsegs
    (List.forall_mem_singleton.mpr (loopSegment_valid rest))
    (List.forall_mem_singleton.mpr hsmall) m₆
  obtain ⟨t, hbuild⟩ := buildTables_loopImage (Nat.le_refl maxMappedPhysical) rest m₇
  have hram : highestRamAddress (some largeMap) m₇ =
      some (.ok maxMappedPhysical, m₇) := by rfl
  refine ⟨⟨loopImage.padded rest, 0xFFFFFFFF80000000, 16, 0x100000, stack, 0x400000, 0x500000,
    maxMappedPhysical, t⟩, t.memory, ?_, rfl, rfl, rfl, rfl, rfl, hsegs, rfl⟩
  have hspan : subU64 0xFFFFFFFF80000010 0xFFFFFFFF80000000 = some 16 := by decide
  refine Proc.bind_eq_ok.mpr ⟨_, _, hread, ?_⟩
  refine Proc.bind_eq_ok.mpr
    ⟨_, _, Proc.mapError_eq_ok.mpr (Proc.runOn_eq_ok.mpr ⟨hparse, rfl⟩), ?_⟩
  refine Proc.bind_eq_ok.mpr
    ⟨_, _, Proc.lift_eq_ok.mpr ⟨virtualExtent_of_loopSegment hsegs, rfl⟩, ?_⟩
  refine Proc.bind_eq_ok.mpr ⟨_, _, Proc.lift_eq_ok.mpr ⟨hspan, rfl⟩, ?_⟩
  refine Proc.bind_eq_ok.mpr ⟨_, _, hkernel, ?_⟩
  refine Proc.bind_eq_ok.mpr ⟨_, _, harena, ?_⟩
  refine Proc.bind_eq_ok.mpr ⟨_, _, hstack, ?_⟩
  refine Proc.bind_eq_ok.mpr ⟨_, _, hregions, ?_⟩
  refine Proc.bind_eq_ok.mpr ⟨_, _, hframe, ?_⟩
  refine Proc.bind_eq_ok.mpr ⟨_, _, Proc.mapError_eq_ok.mpr hcopy, ?_⟩
  refine Proc.bind_eq_ok.mpr ⟨_, _, hram, ?_⟩
  exact Proc.bind_eq_ok.mpr ⟨_, _, hbuild, rfl⟩

/-- All addresses of this machine's memory are installed. -/
theorem installedRam_largeMap {a : Nat} (h : a < 2 ^ 36 + 2 ^ 16) : InstalledRam largeMap a := by
  by_cases hlow : a < 2 ^ 23
  · refine ⟨⟨.loaderData, 0, 2 ^ 11⟩, by simp [largeMap], rfl, Nat.zero_le _, ?_⟩
    simp only [MemoryDescriptor.len, pageSize]
    omega
  · by_cases hmiddle : a < 2 ^ 36
    · refine ⟨⟨.conventional, 2 ^ 23, 2 ^ 24 - 2 ^ 11⟩, by simp [largeMap], rfl, by
        simpa using hlow, ?_⟩
      simp only [MemoryDescriptor.len, pageSize]
      omega
    · refine ⟨⟨.loaderData, 2 ^ 36, 16⟩, by simp [largeMap], rfl, by simpa using hmiddle, ?_⟩
      simp only [MemoryDescriptor.len, pageSize]
      omega

/-- Each byte that this machine hands over lies below the end of the stack or 6 MiB. -/
theorem largeMachine_handed {p : Prepared} {stack : Nat} (hs : p.stack = stack)
    (hr : p.regions = 0x400000) (hb : p.bootInfoFrame = 0x500000) {a : Nat} (ha : p.Handed a) :
    a < stack + 2 ^ 16 ∨ a < 0x600000 := by
  have hcap : regionCapacity = 1365 := by decide
  simp only [Prepared.Handed, hs, hr, hb, hcap, kernelStackPages, pageSize, sizeOfMemoryRegion,
    sizeOfBootInfo] at ha
  omega

/-- With its stack at 6 MiB everything handed over is mapped. -/
theorem handed_mapped_iff_stack_below :
    ∃ p m', prepareHandover (largeMachine 0x600000) (fun _ ↦ 0) = some (.ok p, m') ∧
      ∀ a, p.Handed a →
        walk m' p.tables.cr3Value (defaultPhysicalMemoryOffset + a) = some ⟨a, .readWrite⟩ := by
  obtain ⟨p, m', hrun, hs, hr, hb, -, -, hsegs, -⟩ :=
    prepareHandover_largeMachine 0x600000 (by decide) (fun _ ↦ 0)
  have hlt : ∀ a, p.Handed a → a < 0x600000 + 2 ^ 16 := by
    intro a ha
    have := largeMachine_handed hs hr hb ha
    omega
  refine ⟨p, m', hrun, (handed_mapped_iff hrun rfl hsegs fun a ha ↦
    installedRam_largeMap (by have := hlt a ha; omega)).mpr fun a ha ↦ ?_⟩
  have := hlt a ha
  simp only [defaultPhysicalMemoryOffset, maxMappedPhysical, u64Max]
  omega

/-- With its stack at 64 GiB, in installed memory, the first byte of the stack is not mapped
though every mapping call succeeds. -/
theorem handed_unmapped_stack_above :
    ∃ p m', prepareHandover (largeMachine (2 ^ 36)) (fun _ ↦ 0) = some (.ok p, m') ∧
      p.stack % pageSize = 0 ∧ (∀ a, p.Handed a → InstalledRam largeMap a) ∧
      p.Handed (2 ^ 36) ∧
      walk m' p.tables.cr3Value (defaultPhysicalMemoryOffset + 2 ^ 36) ≠
        some ⟨2 ^ 36, .readWrite⟩ := by
  obtain ⟨p, m', hrun, hs, hr, hb, -, -, hsegs, -⟩ :=
    prepareHandover_largeMachine (2 ^ 36) (by decide) (fun _ ↦ 0)
  have hin : p.Handed (2 ^ 36) := .inl (by rw [hs]; decide)
  obtain ⟨segments, hready⟩ := prepareHandover_ok hrun
  have hsame := hready.segments_eq
  rw [hsegs] at hsame
  cases hsame
  refine ⟨p, m', hrun, by rw [hs]; decide, fun a ha ↦ installedRam_largeMap ?_, hin, ?_⟩
  · have := largeMachine_handed hs hr hb ha
    omega
  · rw [Ne, hready.walk_offset_iff rfl (installedRam_largeMap (by decide))]
    rintro ⟨-, hlt | ⟨-, hhi, -⟩ | ⟨s, hmem, hperm, -⟩⟩
    · exact absurd hlt (by decide)
    · exact absurd hhi (by decide)
    · rw [List.mem_singleton.mp hmem] at hperm
      cases hperm

end LokoOS.Boot
