import LokoOS.Boot.LoadKernel
import LokoOS.BootProtocol.BootInfo

/-!
# The address space the kernel starts on

`boot/loko-boot/src/main.rs:137–202`. On fresh tables the bootloader maps the kernel, a
window onto all of RAM, the screen if it is outside that window, and the low addresses.
The theorems say exactly what is mapped when all four steps return.
-/

namespace LokoOS.Boot
open LokoOS.Base LokoOS.BootProtocol

/-- How much of the low address space is identity-mapped; `main.rs:67`. -/
def identityMappedBytes : Nat := 4 * 1024 * 1024 * 1024

/-- The most physical address space that the window covers; `main.rs:74`. -/
def maxMappedPhysical : Nat := 64 * 1024 * 1024 * 1024

/-- The screen's address, rounded down to a 2 MiB page; `main.rs:171`. -/
def framebufferBase (fb : Framebuffer) : Nat := fb.base &&& (u64Max - (hugePageSize - 1))

/-- Map the screen if there is one; `main.rs:170–180`. -/
def mapFramebuffer (fb : Framebuffer) : Proc PageTables String Unit :=
  if fb.isPresent then do
    let base := framebufferBase fb
    let difference ← Proc.lift (subU64 fb.base base)
    let length ← Proc.lift (addU64 fb.size difference)
    let virtualBase ← Proc.lift (addU64 defaultPhysicalMemoryOffset base)
    Proc.mapError PagingError.message
      (PageTables.mapHugeRangeLenient virtualBase base length .readWrite)
  else pure ()

/-- Build the page tables; `main.rs:144–202`. -/
def buildAddressSpace (image : Image) (kernelLow kernelPhysical highestRam : Nat)
    (fb : Framebuffer) : Proc PageTables String Unit := do
  mapKernel image kernelLow kernelPhysical
  Proc.mapError PagingError.message
    (PageTables.mapHugeRange defaultPhysicalMemoryOffset 0 highestRam .readWrite)
  mapFramebuffer fb
  Proc.mapError PagingError.message
    (PageTables.mapHugeRange 0 0 identityMappedBytes .readExecute)

/-- Pages of the screen's range, which starts at the rounded address; none without a
screen. -/
def framebufferPages (fb : Framebuffer) : Nat :=
  if fb.isPresent then divCeil (fb.size + (fb.base - framebufferBase fb)) hugePageSize else 0

/-- Number of the 2 MiB page of the window that maps a physical address. -/
def windowNumber (physical : Nat) : Nat := hugeNumber (defaultPhysicalMemoryOffset + physical)

/-- What the tables map when all steps have returned: the kernel's pages, and as 2 MiB
pages the window, the part of the screen's range that no kernel page shares a slot with,
and the low addresses. -/
structure AddressSpace (kernelLow kernelPhysical highestRam : Nat) (segments : List Segment)
    (fb : Framebuffer) (p : PageMap) : Prop where
  wf : p.WF
  kernel : ∃ k : PageMap, KernelAdded kernelLow kernelPhysical segments .empty k ∧
    p.page = k.page ∧ p.tabled = k.tabled
  window : ∀ i < divCeil highestRam hugePageSize,
    p.huge (windowNumber (i * hugePageSize)) = some ⟨i * hugePageSize, .readWrite⟩
  screen : ∀ i < framebufferPages fb,
    p.tabled (windowNumber (framebufferBase fb + i * hugePageSize)) = false →
    p.huge (windowNumber (framebufferBase fb + i * hugePageSize)) =
      some ⟨framebufferBase fb + i * hugePageSize, .readWrite⟩
  identity : ∀ i < divCeil identityMappedBytes hugePageSize,
    p.huge (hugeNumber (i * hugePageSize)) = some ⟨i * hugePageSize, .readExecute⟩
  nothing_else : ∀ h leaf, p.huge h = some leaf →
    (∃ i < divCeil highestRam hugePageSize, h = windowNumber (i * hugePageSize) ∧
      leaf = ⟨i * hugePageSize, .readWrite⟩) ∨
    (∃ i < framebufferPages fb, h = windowNumber (framebufferBase fb + i * hugePageSize) ∧
      leaf = ⟨framebufferBase fb + i * hugePageSize, .readWrite⟩) ∨
    ∃ i < divCeil identityMappedBytes hugePageSize, h = hugeNumber (i * hugePageSize) ∧
      leaf = ⟨i * hugePageSize, .readExecute⟩
  screen_fits : ∀ i < framebufferPages fb,
    defaultPhysicalMemoryOffset + (framebufferBase fb + i * hugePageSize) ≤ u64Max

/-- A segment lies in the higher half from the kernel's base up. -/
def Segment.HigherHalf (s : Segment) : Prop :=
  kernelVirtualBase ≤ s.virtualAddress ∧ s.virtualAddress + s.memorySize ≤ 2 ^ 64

private theorem framebufferBase_field (fb : Framebuffer) :
    framebufferBase fb = 2 ^ 21 * (fb.base / 2 ^ 21 % 2 ^ 43) := by
  have hmask : u64Max - (hugePageSize - 1) = 2 ^ 21 * (2 ^ 43 - 1) := by decide
  rw [framebufferBase, hmask, and_field]

/-- Rounding down clears the offset within a 2 MiB page. -/
theorem framebufferBase_eq {fb : Framebuffer} (h : fb.base < 2 ^ 64) :
    framebufferBase fb = fb.base / hugePageSize * hugePageSize := by
  rw [framebufferBase_field]
  simp only [hugePageSize]
  omega

/-- The rounded address is a multiple of the page size. -/
theorem framebufferBase_aligned (fb : Framebuffer) : framebufferBase fb % hugePageSize = 0 := by
  rw [framebufferBase_field]
  simp only [hugePageSize]
  omega

variable {image : Image} {kernelLow kernelPhysical highestRam : Nat} {segments : List Segment}
  {fb : Framebuffer} {t t' : PageTables} {p : PageMap}

private theorem windowNumber_inj {a b : Nat} (ha : a % hugePageSize = 0) (hb : b % hugePageSize = 0)
    (hua : defaultPhysicalMemoryOffset + a ≤ u64Max)
    (hub : defaultPhysicalMemoryOffset + b ≤ u64Max) (h : windowNumber a = windowNumber b) :
    a = b := by
  simp only [windowNumber, hugeNumber, defaultPhysicalMemoryOffset, hugePageSize, u64Max] at *
  omega

/-- Mapping the screen returned: its pages were added where their slots were free. -/
theorem mapFramebuffer_ok (h : t.WF) (hrun : mapFramebuffer fb t = some (.ok (), t')) :
    t.Keeps t' ∧
      HugePagesAdded t.view t'.view (defaultPhysicalMemoryOffset + framebufferBase fb)
        (framebufferBase fb) (framebufferPages fb) .readWrite ∧
      ∀ i < framebufferPages fb,
        defaultPhysicalMemoryOffset + framebufferBase fb + i * hugePageSize ≤ u64Max := by
  by_cases hp : fb.isPresent = true
  · rw [mapFramebuffer, if_pos hp, Proc.subU64_bind_eq_ok, Proc.addU64_bind_eq_ok,
      Proc.addU64_bind_eq_ok, Proc.mapError_eq_ok] at hrun
    obtain ⟨-, -, -, hrun⟩ := hrun
    rw [framebufferPages, if_pos hp]
    refine PageTables.mapHugeRangeLenient_ok h ?_ ?_ hrun
    · intro i _ hle
      simp only [defaultPhysicalMemoryOffset, u64Max] at hle
      omega
    · intro i j hij hle
      simp only [hugeNumber, defaultPhysicalMemoryOffset, hugePageSize, u64Max] at hle ⊢
      omega
  · rw [mapFramebuffer, if_neg hp] at hrun
    cases hrun
    rw [framebufferPages, if_neg hp]
    exact ⟨h.keeps_self, .zero, by omega⟩

/-- A screen below 2 ^ 46 is mapped, whatever its slots hold, if the arena has two frames for
each of its pages. -/
theorem mapFramebuffer_total (h : t.WF) (hfb : fb.base + fb.size ≤ 2 ^ 46)
    (hroom : t.nextFrame + 2 * framebufferPages fb ≤ t.arenaFrames) :
    ∃ t', mapFramebuffer fb t = some (.ok (), t') ∧
      t'.nextFrame ≤ t.nextFrame + 2 * framebufferPages fb := by
  by_cases hp : fb.isPresent = true
  · have hbase := framebufferBase_eq (show fb.base < 2 ^ 64 by omega)
    have haligned := framebufferBase_aligned fb
    have hspan := divCeil_mul_lt (fb.size + (fb.base - framebufferBase fb))
      (show 0 < hugePageSize by decide)
    rw [framebufferPages, if_pos hp] at hroom ⊢
    have hloop : ∃ t', PageTables.mapHugeRangeLenient
        (defaultPhysicalMemoryOffset + framebufferBase fb) (framebufferBase fb)
        (fb.size + (fb.base - framebufferBase fb)) .readWrite t = some (.ok (), t') ∧
        t'.nextFrame ≤ t.nextFrame +
          2 * divCeil (fb.size + (fb.base - framebufferBase fb)) hugePageSize := by
      apply PageTables.mapHugeRangeLenient_total h ?_ haligned ?_ ?_ hroom
      · simp only [defaultPhysicalMemoryOffset, hugePageSize] at *
        omega
      · simp only [defaultPhysicalMemoryOffset, hugePageSize] at *
        omega
      · simp only [hugePageSize] at *
        omega
    obtain ⟨t', hrun, hnext⟩ := hloop
    refine ⟨t', ?_, hnext⟩
    rw [mapFramebuffer, if_pos hp, Proc.subU64_bind_eq_ok, Proc.addU64_bind_eq_ok,
      Proc.addU64_bind_eq_ok, Proc.mapError_eq_ok]
    simp only [defaultPhysicalMemoryOffset, hugePageSize, u64Max] at *
    exact ⟨by omega, by omega, by omega, hrun⟩
  · rw [framebufferPages, if_neg hp, mapFramebuffer, if_neg hp]
    exact ⟨t, rfl, Nat.le_refl _⟩

private theorem screen_over_window {m m' m'' : PageMap} {n : Nat}
    (hnone : ∀ s, m.huge s = none)
    (hw : HugePagesAdded m m' defaultPhysicalMemoryOffset 0 n .readWrite)
    (hs : HugePagesAdded m' m'' (defaultPhysicalMemoryOffset + framebufferBase fb)
      (framebufferBase fb) (framebufferPages fb) .readWrite)
    (hwindow : ∀ j < n, defaultPhysicalMemoryOffset + j * hugePageSize ≤ u64Max) {i : Nat}
    (hi : i < framebufferPages fb)
    (hfits : defaultPhysicalMemoryOffset + (framebufferBase fb + i * hugePageSize) ≤ u64Max)
    (htab : m'.tabled (windowNumber (framebufferBase fb + i * hugePageSize)) = false) :
    m''.huge (windowNumber (framebufferBase fb + i * hugePageSize)) =
      some ⟨framebufferBase fb + i * hugePageSize, .readWrite⟩ := by
  have he : defaultPhysicalMemoryOffset + framebufferBase fb + i * hugePageSize =
      defaultPhysicalMemoryOffset + (framebufferBase fb + i * hugePageSize) := Nat.add_assoc ..
  cases hthere : m'.huge (windowNumber (framebufferBase fb + i * hugePageSize)) with
  | none =>
    have hadded := hs.inside i hi (by rw [he]; exact ⟨hthere, htab⟩)
    rwa [he] at hadded
  | some leaf =>
    rcases hw.eq_some hthere with hk | ⟨j, hj, hsame, rfl⟩
    · rw [hnone] at hk
      cases hk
    · have heq := windowNumber_inj (b := j * hugePageSize)
        (by have := framebufferBase_aligned fb; simp only [hugePageSize] at *; omega)
        (by simp only [hugePageSize]; omega) hfits (hwindow j hj) hsame
      rw [hs.of_some hthere, heq, Nat.zero_add]

/-- When all four steps return on fresh tables, the address space is the intended one. -/
theorem buildAddressSpace_ok (h : t.WF) (hempty : t.view = .empty)
    (hsegs : image.segments = some segments)
    (hphysical : ∀ s ∈ segments, ∀ i < s.pages,
      s.destination kernelLow kernelPhysical + i * pageSize < 2 ^ 52)
    (hram : highestRam ≤ maxMappedPhysical)
    (hrun : buildAddressSpace image kernelLow kernelPhysical highestRam fb t =
      some (.ok (), t')) :
    t.Keeps t' ∧ AddressSpace kernelLow kernelPhysical highestRam segments fb t'.view := by
  rw [buildAddressSpace, Proc.bind_eq_ok] at hrun
  obtain ⟨_, t₁, hkernel, hrun⟩ := hrun
  rw [Proc.bind_eq_ok] at hrun
  obtain ⟨_, t₂, hwindow, hrun⟩ := hrun
  rw [Proc.bind_eq_ok] at hrun
  obtain ⟨_, t₃, hscreen, hidentity⟩ := hrun
  rw [mapKernel, hsegs, Proc.run_bind_ok (Proc.run_lift_some _ _)] at hkernel
  rw [Proc.mapError_eq_ok] at hwindow hidentity
  obtain ⟨hk₁, hadded⟩ := mapAll_ok h hphysical hkernel
  obtain ⟨hk₂, hw, hwfree⟩ := PageTables.mapHugeRange_ok hk₁.wf (by
    intro i hi
    have := mul_lt_of_lt_divCeil hi
    simp only [maxMappedPhysical] at hram
    omega) hwindow
  obtain ⟨hk₃, hs, hfits⟩ := mapFramebuffer_ok hk₂.wf hscreen
  obtain ⟨hk₄, hi, hifree⟩ := PageTables.mapHugeRange_ok hk₃.wf (by
    intro i hi
    have := mul_lt_of_lt_divCeil hi
    simp only [identityMappedBytes] at this
    omega) hidentity
  have hw' : ∀ i < divCeil highestRam hugePageSize,
      t₂.view.huge (windowNumber (i * hugePageSize)) =
        some ⟨i * hugePageSize, .readWrite⟩ := by
    intro i hin
    have := hw.inside i hin (hwfree i hin)
    rwa [Nat.zero_add] at this
  have hfits' : ∀ i < framebufferPages fb,
      defaultPhysicalMemoryOffset + (framebufferBase fb + i * hugePageSize) ≤ u64Max := by
    intro i hin
    have := hfits i hin
    omega
  have hwbound : ∀ i < divCeil highestRam hugePageSize,
      defaultPhysicalMemoryOffset + i * hugePageSize ≤ u64Max := by
    intro i hin
    have := mul_lt_of_lt_divCeil hin
    simp only [maxMappedPhysical, defaultPhysicalMemoryOffset, u64Max] at *
    omega
  have hnone : ∀ s, t₁.view.huge s = none := by
    intro s
    rw [hadded.huge_eq, hempty]
    rfl
  refine ⟨((hk₁.trans hk₂).trans hk₃).trans hk₄, hk₄.wf.view,
    ⟨t₁.view, hempty ▸ hadded, ?_, ?_⟩, ?_, ?_, ?_, ?_, hfits'⟩
  · rw [hi.page_eq, hs.page_eq, hw.page_eq]
  · rw [hi.tabled_eq, hs.tabled_eq, hw.tabled_eq]
  · intro i hin
    exact hi.of_some (hs.of_some (hw' i hin))
  · intro i hin htab
    rw [hi.tabled_eq, hs.tabled_eq] at htab
    apply hi.of_some
    exact screen_over_window hnone hw hs hwbound hin (hfits' i hin) htab
  · intro i hin
    have := hi.inside i hin (hifree i hin)
    rwa [Nat.zero_add] at this
  · intro s leaf hleaf
    rcases hi.eq_some hleaf with hleaf | ⟨i, hin, rfl, rfl⟩
    · rcases hs.eq_some hleaf with hleaf | ⟨i, hin, rfl, rfl⟩
      · rcases hw.eq_some hleaf with hleaf | ⟨i, hin, rfl, rfl⟩
        · rw [hnone] at hleaf
          cases hleaf
        · exact .inl ⟨i, hin, rfl, by rw [Nat.zero_add]⟩
      · refine .inr (.inl ⟨i, hin, ?_, rfl⟩)
        rw [windowNumber, Nat.add_assoc]
    · exact .inr (.inr ⟨i, hin, by rw [Nat.zero_add], by rw [Nat.zero_add]⟩)

/-- Tables for one 2 MiB kernel, 64 GiB of window and 4 GiB of low addresses. -/
def bootFrames : Nat := 3 + 65 + 5

private theorem window_slots_le (hram : highestRam ≤ maxMappedPhysical) :
    divCeil highestRam hugePageSize ≤ 2 ^ 15 := by
  by_contra hlt
  have := mul_lt_of_lt_divCeil (Nat.not_le.mp hlt)
  simp only [maxMappedPhysical, hugePageSize] at *
  omega

private theorem kernel_leaves_free {segment : Segment} {m m' : PageMap}
    (hadded : KernelAdded kernelLow kernelPhysical [segment] m m') (hempty : m = .empty)
    (hs : segment.Small kernelLow kernelPhysical) (hhigher : segment.HigherHalf) :
    ∀ n < 2 ^ 27 - 2 ^ 10, m'.Free n := by
  intro n hn
  refine ⟨by rw [hadded.huge_eq, hempty]; rfl, ?_⟩
  rw [← Bool.not_eq_true, hadded.tabled_iff, hempty]
  rintro (hnone | ⟨s, hmem, i, hi, he⟩)
  · cases hnone
  · rw [List.mem_singleton] at hmem
    rw [hmem] at hi he
    have hle : i * pageSize + pageSize ≤ segment.pages * pageSize := item_end_le hi
    have hlow := hhigher.1
    have hhigh := hs.in_range
    simp only [Segment.pageAddress, hugeNumber, hugePageSize, pageSize, kernelVirtualBase] at *
    omega

private theorem mapWindow_total (h : t.WF) (hram : highestRam ≤ maxMappedPhysical)
    (hfree : ∀ n < 2 ^ 27 - 2 ^ 10, t.view.Free n) (hroom : t.nextFrame + 65 ≤ t.arenaFrames) :
    ∃ t', PageTables.mapHugeRange defaultPhysicalMemoryOffset 0 highestRam .readWrite t =
      some (.ok (), t') ∧ t'.nextFrame ≤ t.nextFrame + 65 := by
  have hwindow := window_slots_le hram
  have hbase : hugeNumber defaultPhysicalMemoryOffset = 2 ^ 26 := by decide
  have hframes : PageTables.rangeFrames defaultPhysicalMemoryOffset
      (divCeil highestRam hugePageSize) ≤ 65 := by
    rw [PageTables.rangeFrames, hbase]
    split <;> omega
  have htotal : ∃ t', PageTables.mapHugeRange defaultPhysicalMemoryOffset 0
      highestRam .readWrite t = some (.ok (), t') ∧
      t'.nextFrame ≤ t.nextFrame + PageTables.rangeFrames defaultPhysicalMemoryOffset
        (divCeil highestRam hugePageSize) := by
    apply PageTables.mapHugeRange_total h (by decide) (by decide)
    · rw [hbase]
      omega
    · simp only [defaultPhysicalMemoryOffset, hugePageSize] at *
      omega
    · simp only [hugePageSize] at *
      omega
    · intro i hi
      rw [hbase]
      exact hfree _ (by omega)
    · omega
  rcases htotal with ⟨t', hrun, hnext⟩
  exact ⟨t', hrun, by omega⟩

private theorem mapIdentity_total (h : t.WF) (hfree : ∀ i < 2 ^ 11, t.view.Free i)
    (hroom : t.nextFrame + 5 ≤ t.arenaFrames) :
    ∃ t', PageTables.mapHugeRange 0 0 identityMappedBytes .readExecute t =
      some (.ok (), t') ∧ t'.nextFrame ≤ t.nextFrame + 5 := by
  have hlow : divCeil identityMappedBytes hugePageSize = 2 ^ 11 := by decide
  have hzero : hugeNumber 0 = 0 := by decide
  have hfive : PageTables.rangeFrames 0 (divCeil identityMappedBytes hugePageSize) = 5 := by
    decide
  have htotal : ∃ t', PageTables.mapHugeRange 0 0 identityMappedBytes .readExecute t =
      some (.ok (), t') ∧ t'.nextFrame ≤ t.nextFrame + PageTables.rangeFrames 0
        (divCeil identityMappedBytes hugePageSize) := by
    apply PageTables.mapHugeRange_total h (by decide) (by decide) (by decide) (by decide)
      (by decide)
    · intro i hi
      rw [hlow] at hi
      rw [hzero, Nat.zero_add]
      exact hfree i hi
    · rw [hfive]
      exact hroom
  rcases htotal with ⟨t', hrun, hnext⟩
  rw [hfive] at hnext
  exact ⟨t', hrun, hnext⟩

private theorem HugePagesAdded.low_free {m m' : PageMap} {virtualBase physicalBase n : Nat}
    (h : HugePagesAdded m m' virtualBase physicalBase n .readWrite)
    (hbase : defaultPhysicalMemoryOffset ≤ virtualBase)
    (hfits : ∀ i < n, virtualBase + i * hugePageSize ≤ u64Max)
    (hfree : ∀ i < 2 ^ 11, m.Free i) : ∀ i < 2 ^ 11, m'.Free i := by
  intro i hi
  refine ⟨?_, by rw [h.tabled_eq]; exact (hfree i hi).2⟩
  rw [h.outside i ?_]
  · exact (hfree i hi).1
  · -- the window is in the upper half of the slots
    intro j hj he
    have hle := hfits j hj
    simp only [hugeNumber, defaultPhysicalMemoryOffset, hugePageSize, u64Max] at *
    omega

/-- Where the slots below the kernel's are free, the window, a screen below 2 ^ 46 and the low
addresses are mapped with at most 70 tables and two for each page of the screen. -/
theorem mapWindow_screen_identity_total (h : t.WF) (hram : highestRam ≤ maxMappedPhysical)
    (hfb : fb.base + fb.size ≤ 2 ^ 46) (hfree : ∀ n < 2 ^ 27 - 2 ^ 10, t.view.Free n)
    (hroom : t.nextFrame + (70 + 2 * framebufferPages fb) ≤ t.arenaFrames) :
    ∃ t₁ t₂ t₃, PageTables.mapHugeRange defaultPhysicalMemoryOffset 0 highestRam .readWrite t =
        some (.ok (), t₁) ∧ mapFramebuffer fb t₁ = some (.ok (), t₂) ∧
      PageTables.mapHugeRange 0 0 identityMappedBytes .readExecute t₂ = some (.ok (), t₃) ∧
      t₃.nextFrame ≤ t.nextFrame + (70 + 2 * framebufferPages fb) := by
  obtain ⟨t₁, hrun₁, hnext₁⟩ := mapWindow_total h hram hfree (by omega)
  have hwindow := window_slots_le hram
  obtain ⟨hk₁, hadded₁, -⟩ := PageTables.mapHugeRange_ok h (by
    intro i hi
    simp only [hugePageSize] at *
    omega) hrun₁
  have hlow₁ := hadded₁.low_free (Nat.le_refl _) (by
    intro i hi
    simp only [defaultPhysicalMemoryOffset, hugePageSize, u64Max] at *
    omega) fun i hi ↦ hfree i (by omega)
  have hframes₁ := hk₁.frames_eq
  obtain ⟨t₂, hrun₂, hnext₂⟩ := mapFramebuffer_total hk₁.wf hfb (by omega)
  obtain ⟨hk₂, hadded₂, hfits₂⟩ := mapFramebuffer_ok hk₁.wf hrun₂
  have hframes₂ := hk₂.frames_eq
  have hlow₂ := hadded₂.low_free (Nat.le_add_right _ _) hfits₂ hlow₁
  obtain ⟨t₃, hrun₃, hnext₃⟩ := mapIdentity_total hk₂.wf hlow₂ (by omega)
  exact ⟨t₁, t₂, t₃, hrun₁, hrun₂, hrun₃, by omega⟩

/-- With one small segment in the higher half, a screen below 2 ^ 46 and fresh tables all
mapping steps succeed, if the arena has frames for them. -/
theorem buildAddressSpace_total {segment : Segment} (h : t.WF) (hempty : t.view = .empty)
    (hsegs : image.segments = some [segment]) (hs : segment.Small kernelLow kernelPhysical)
    (hhigher : segment.HigherHalf) (hram : highestRam ≤ maxMappedPhysical)
    (hfb : fb.base + fb.size ≤ 2 ^ 46)
    (hroom : t.nextFrame + (bootFrames + 2 * framebufferPages fb) ≤ t.arenaFrames) :
    ∃ t', buildAddressSpace image kernelLow kernelPhysical highestRam fb t =
      some (.ok (), t') := by
  simp only [bootFrames] at hroom
  obtain ⟨t₁, hkernel, hnext₁⟩ := mapKernel_total h hempty hsegs
    (List.forall_mem_singleton.mpr hs) (List.pairwise_singleton _ _) (by
      rw [List.length_singleton]
      omega)
  rw [List.length_singleton] at hnext₁
  have hall := hkernel
  rw [mapKernel, hsegs, Proc.run_bind_ok (Proc.run_lift_some _ _)] at hall
  obtain ⟨hk₁, hadded⟩ := mapAll_ok h
    (List.forall_mem_singleton.mpr fun i hi ↦ hs.physical_lt hi) hall
  -- the slots of the window and of the low addresses are below the kernel's
  have hfree₁ := kernel_leaves_free hadded hempty hs hhigher
  have hframes₁ := hk₁.frames_eq
  obtain ⟨t₂, t₃, t₄, hrun₂, hrun₃, hrun₄, -⟩ :=
    mapWindow_screen_identity_total hk₁.wf hram hfb hfree₁ (by omega)
  refine ⟨t₄, ?_⟩
  rw [buildAddressSpace, Proc.run_bind_ok hkernel,
    Proc.run_bind_ok (Proc.mapError_eq_ok.mpr hrun₂), Proc.run_bind_ok hrun₃]
  exact Proc.mapError_eq_ok.mpr hrun₄

/-! ### Translations -/

/-- An address lies in a byte range rounded out to whole pages. -/
def InRounding (size start length address : Nat) : Prop :=
  0 < length ∧ start / size ≤ address / size ∧ address / size ≤ (start + length - 1) / size

/-- An address of the window is translated by the page of its frame. -/
theorem translate_windowNumber (hp : p.WF) {physical : Nat} {permissions : Permissions}
    (hb : defaultPhysicalMemoryOffset + physical ≤ u64Max)
    (hh : p.huge (windowNumber (physical / hugePageSize * hugePageSize)) =
      some ⟨physical / hugePageSize * hugePageSize, permissions⟩) :
    p.translate (defaultPhysicalMemoryOffset + physical) = some ⟨physical, permissions⟩ := by
  have hnumber : windowNumber (physical / hugePageSize * hugePageSize) =
      hugeNumber (defaultPhysicalMemoryOffset + physical) := by
    simp only [windowNumber, hugeNumber, defaultPhysicalMemoryOffset, hugePageSize]
    omega
  have hc : Canonical (defaultPhysicalMemoryOffset + physical) := by
    simp only [Canonical, defaultPhysicalMemoryOffset, u64Max] at *
    omega
  rw [hnumber] at hh
  rw [PageMap.translate_of_huge hp hc hh]
  simp only [Option.some.injEq, Translation.mk.injEq, and_true, defaultPhysicalMemoryOffset,
    hugePageSize]
  omega

/-- The window maps every byte of RAM below the highest address, read-write. -/
theorem AddressSpace.translate_window
    (h : AddressSpace kernelLow kernelPhysical highestRam segments fb p)
    (hram : highestRam ≤ maxMappedPhysical) {physical : Nat} (hlt : physical < highestRam) :
    p.translate (defaultPhysicalMemoryOffset + physical) = some ⟨physical, .readWrite⟩ := by
  refine translate_windowNumber h.wf ?_ (h.window _ (div_lt_divCeil hlt (by decide)))
  simp only [maxMappedPhysical, defaultPhysicalMemoryOffset, u64Max] at *
  omega

/-- Every byte of the screen is in its range of pages. -/
theorem screen_page {physical : Nat} (hp : fb.isPresent = true) (hb : fb.base < 2 ^ 64)
    (hlo : fb.base ≤ physical) (hhi : physical < fb.base + fb.size) :
    ∃ i < framebufferPages fb,
      framebufferBase fb + i * hugePageSize = physical / hugePageSize * hugePageSize := by
  have hbase := framebufferBase_eq hb
  refine ⟨physical / hugePageSize - fb.base / hugePageSize, ?_, ?_⟩
  · have hlt : physical - framebufferBase fb < fb.size + (fb.base - framebufferBase fb) := by
      simp only [hugePageSize] at hbase
      omega
    have := div_lt_divCeil hlt (show 0 < hugePageSize by decide)
    rw [framebufferPages, if_pos hp]
    simp only [hugePageSize] at *
    omega
  · simp only [hugePageSize] at *
    omega

/-- The low addresses are mapped to themselves, read-execute. -/
theorem AddressSpace.translate_identity
    (h : AddressSpace kernelLow kernelPhysical highestRam segments fb p) {address : Nat}
    (hlt : address < identityMappedBytes) :
    p.translate address = some ⟨address, .readExecute⟩ := by
  have hnumber : hugeNumber (address / hugePageSize * hugePageSize) = hugeNumber address := by
    simp only [hugeNumber, hugePageSize]
    omega
  have hc : Canonical address := by
    simp only [Canonical, identityMappedBytes] at *
    omega
  have hh := h.identity _ (div_lt_divCeil hlt (by decide))
  rw [hnumber] at hh
  rw [PageMap.translate_of_huge h.wf hc hh]
  simp only [Option.some.injEq, Translation.mk.injEq, and_true, hugePageSize]
  omega

private theorem Segment.permissions_wxorx {s : Segment} {permissions : Permissions}
    (h : s.permissions = .ok permissions) :
    ¬ (permissions.writable = true ∧ permissions.executable = true) := by
  rw [Segment.permissions] at h
  split at h
  · cases h
    decide
  · cases h
    decide
  · cases h
    decide
  · cases h

/-- A mapped 4 KiB page is a page of a segment, with its frame and permissions. -/
theorem AddressSpace.page_eq_some
    (h : AddressSpace kernelLow kernelPhysical highestRam segments fb p) {v : Nat} {leaf : Leaf}
    (hv : p.page v = some leaf) :
    ∃ s ∈ segments, ∃ i < s.pages, v = pageNumber (s.pageAddress i) ∧
      s.permissions = .ok leaf.permissions ∧
      leaf.frame = s.destination kernelLow kernelPhysical + i * pageSize := by
  obtain ⟨k, hk, hpage, -⟩ := h.kernel
  rw [hpage] at hv
  exact hk.page_eq_some hv

/-- The slots that hold a table are those of the kernel's pages. -/
theorem AddressSpace.tabled_iff
    (h : AddressSpace kernelLow kernelPhysical highestRam segments fb p) {n : Nat} :
    p.tabled n = true ↔ ∃ s ∈ segments, ∃ i < s.pages, n = hugeNumber (s.pageAddress i) := by
  obtain ⟨k, hk, -, htab⟩ := h.kernel
  rw [htab, hk.tabled_iff]
  simp [PageMap.empty]

/-- No address is both writable and executable. -/
theorem AddressSpace.wxorx (h : AddressSpace kernelLow kernelPhysical highestRam segments fb p)
    {address : Nat} {tr : Translation} (ht : p.translate address = some tr) :
    ¬ (tr.permissions.writable = true ∧ tr.permissions.executable = true) := by
  rcases (PageMap.translate_eq_some ht).2 with ⟨leaf, hl, rfl⟩ | ⟨leaf, hl, rfl⟩
  · obtain ⟨s, -, i, -, -, hperm, -⟩ := h.page_eq_some hl
    exact Segment.permissions_wxorx hperm
  · rcases h.nothing_else _ _ hl with ⟨i, -, -, rfl⟩ | ⟨i, -, -, rfl⟩ | ⟨i, -, -, rfl⟩
    · simp [Permissions.readWrite]
    · simp [Permissions.readWrite]
    · simp [Permissions.readExecute]

private theorem AddressSpace.window_not_tabled
    (h : AddressSpace kernelLow kernelPhysical highestRam segments fb p)
    (hhigher : ∀ s ∈ segments, s.HigherHalf) {physical : Nat} (hb : physical < 2 ^ 46) :
    p.tabled (windowNumber physical) = false := by
  rw [← Bool.not_eq_true, h.tabled_iff]
  rintro ⟨s, hs, i, hi, he⟩
  obtain ⟨hlow, hhigh⟩ := hhigher s hs
  have hlt := mul_lt_of_lt_divCeil hi
  simp only [windowNumber, Segment.pageAddress, hugeNumber, hugePageSize, pageSize,
    defaultPhysicalMemoryOffset, kernelVirtualBase] at *
  omega

/-- Every canonical byte of a segment is translated to its place, with the segment's
permissions. -/
theorem AddressSpace.translate_segment
    (h : AddressSpace kernelLow kernelPhysical highestRam segments fb p) {s : Segment}
    (hs : s ∈ segments) {j : Nat} (hj : j < s.memorySize)
    (hc : Canonical (s.virtualAddress + j)) :
    ∃ permissions, s.permissions = .ok permissions ∧
      p.translate (s.virtualAddress + j) =
        some ⟨kernelPhysical + (s.virtualAddress + j - kernelLow), permissions⟩ := by
  obtain ⟨k, hk, hpage, -⟩ := h.kernel
  obtain ⟨permissions, hperm, htranslate⟩ := hk.translate hs hj hc
  have hplace : kernelPhysical + (s.virtualAddress + j - kernelLow) =
      s.destination kernelLow kernelPhysical + j := by
    have hbelow := (hk.placed s hs).1
    simp only [Segment.destination]
    omega
  refine ⟨permissions, hperm, ?_⟩
  rw [hplace, ← htranslate]
  exact hk.translate_of_page_eq hpage hs hj

/-- A byte of a page of the screen whose slot holds no table is translated to itself,
read-write. -/
theorem AddressSpace.translate_screen_page
    (h : AddressSpace kernelLow kernelPhysical highestRam segments fb p) {physical i : Nat}
    (hfits : defaultPhysicalMemoryOffset + physical ≤ u64Max) (hi : i < framebufferPages fb)
    (hpage : framebufferBase fb + i * hugePageSize = physical / hugePageSize * hugePageSize)
    (htab : p.tabled (windowNumber physical) = false) :
    p.translate (defaultPhysicalMemoryOffset + physical) = some ⟨physical, .readWrite⟩ := by
  have hnumber : windowNumber (physical / hugePageSize * hugePageSize) =
      windowNumber physical := by
    simp only [windowNumber, hugeNumber, defaultPhysicalMemoryOffset, hugePageSize]
    omega
  have hscreen := h.screen i hi
  rw [hpage, hnumber] at hscreen
  exact translate_windowNumber h.wf hfits (by rw [hnumber]; exact hscreen htab)

/-- Outside the rounded ranges nothing is mapped. -/
theorem AddressSpace.unmapped
    (h : AddressSpace kernelLow kernelPhysical highestRam segments fb p)
    (hram : highestRam ≤ maxMappedPhysical) (hb : fb.base < 2 ^ 64)
    (hhigher : ∀ s ∈ segments, s.HigherHalf) {address : Nat}
    (hkernel : ∀ s ∈ segments,
      ¬ InRounding pageSize s.virtualAddress s.memorySize address)
    (hwindow : ¬ InRounding hugePageSize defaultPhysicalMemoryOffset highestRam address)
    (hscreen : fb.isPresent = true →
      ¬ InRounding hugePageSize (defaultPhysicalMemoryOffset + fb.base) fb.size address)
    (hidentity : identityMappedBytes ≤ address) : p.translate address = none := by
  cases ht : p.translate address with
  | none => rfl
  | some tr =>
    exfalso
    obtain ⟨hc, ⟨leaf, hl, -⟩ | ⟨leaf, hl, -⟩⟩ := PageMap.translate_eq_some ht
    · obtain ⟨k, hk, -⟩ := h.kernel
      obtain ⟨s, hs, i, hi, hv, -, -⟩ := h.page_eq_some hl
      obtain ⟨hva, halign, -⟩ := (hk.placed s hs).2 i hi
      obtain ⟨hlow, hhigh⟩ := hhigher s hs
      have hlt := mul_lt_of_lt_divCeil hi
      refine hkernel s hs ⟨by omega, ?_, ?_⟩ <;>
        simp only [pageNumber, Segment.pageAddress, Canonical, pageSize, kernelVirtualBase] at * <;>
        omega
    · rcases h.nothing_else _ _ hl with ⟨i, hi, hv, -⟩ | ⟨i, hi, hv, -⟩ | ⟨i, hi, hv, -⟩
      · have hlt := mul_lt_of_lt_divCeil hi
        refine hwindow ⟨by omega, ?_, ?_⟩ <;>
          simp only [windowNumber, hugeNumber, Canonical, hugePageSize, maxMappedPhysical,
            defaultPhysicalMemoryOffset] at * <;> omega
      · have hfits := h.screen_fits i hi
        have hbase := framebufferBase_eq hb
        rw [framebufferPages] at hi
        split at hi
        · next hp =>
          have hlt := mul_lt_of_lt_divCeil hi
          have hsize : 0 < fb.size := by
            simp only [Framebuffer.isPresent, Bool.and_eq_true, bne_iff_ne] at hp
            omega
          refine hscreen hp ⟨hsize, ?_, ?_⟩ <;>
            simp only [windowNumber, hugeNumber, Canonical, hugePageSize, u64Max,
              defaultPhysicalMemoryOffset] at * <;> omega
        · omega
      · have hlt := mul_lt_of_lt_divCeil hi
        simp only [hugeNumber, Canonical, hugePageSize, identityMappedBytes] at *
        omega

/-- The boot address space is exactly what was intended. When the four mapping steps return
on fresh tables for an image in the higher half, the walk translates every kernel byte to
its place in the allocation with its segment's permissions, the window to RAM and screen,
and the low addresses to themselves; outside the rounded ranges nothing is mapped, and
nothing is both writable and executable. -/
theorem addressSpace_exact (hsegs : image.segments = some segments)
    (hhigher : ∀ s ∈ segments, s.HigherHalf)
    (hphysical : ∀ s ∈ segments, ∀ k < s.memorySize,
      s.destination kernelLow kernelPhysical + k < 2 ^ 46)
    (hram : highestRam ≤ maxMappedPhysical) (hfb : fb.base + fb.size ≤ 2 ^ 46)
    {memory : Memory} {arenaBase arenaFrames : Nat}
    (hnew : PageTables.new memory arenaBase arenaFrames = some (.ok t))
    (hrun : buildAddressSpace image kernelLow kernelPhysical highestRam fb t =
      some (.ok (), t')) :
    (∀ s ∈ segments, ∀ k < s.memorySize, ∃ permissions, s.permissions = .ok permissions ∧
      walk t'.memory t'.cr3Value (s.virtualAddress + k) =
        some ⟨kernelPhysical + (s.virtualAddress + k - kernelLow), permissions⟩) ∧
    (∀ physical, physical < highestRam ∨ (fb.isPresent = true ∧ fb.base ≤ physical ∧
        physical < fb.base + fb.size) →
      walk t'.memory t'.cr3Value (defaultPhysicalMemoryOffset + physical) =
        some ⟨physical, .readWrite⟩) ∧
    (∀ va < identityMappedBytes, walk t'.memory t'.cr3Value va = some ⟨va, .readExecute⟩) ∧
    (∀ va, (∀ s ∈ segments, ¬ InRounding pageSize s.virtualAddress s.memorySize va) →
      ¬ InRounding hugePageSize defaultPhysicalMemoryOffset highestRam va →
      (fb.isPresent = true →
        ¬ InRounding hugePageSize (defaultPhysicalMemoryOffset + fb.base) fb.size va) →
      identityMappedBytes ≤ va → walk t'.memory t'.cr3Value va = none) ∧
    ∀ va tr, walk t'.memory t'.cr3Value va = some tr →
      ¬ (tr.permissions.writable = true ∧ tr.permissions.executable = true) := by
  obtain ⟨ha, hpos, hbelow⟩ := PageTables.new_eq_ok hnew
  obtain ⟨t₀, hrun₀, hwf, hview, -⟩ :=
    PageTables.new_spec memory arenaBase arenaFrames ha hpos hbelow
  rw [hnew] at hrun₀
  cases hrun₀
  have hpages : ∀ s ∈ segments, ∀ i < s.pages,
      s.destination kernelLow kernelPhysical + i * pageSize < 2 ^ 52 := by
    intro s hs i hi
    have := hphysical s hs _ (mul_lt_of_lt_divCeil hi)
    omega
  obtain ⟨hkeeps, h⟩ := buildAddressSpace_ok hwf hview hsegs hpages hram hrun
  simp only [PageTables.walk_eq hkeeps.wf]
  refine ⟨?_, ?_, fun va hlt ↦ h.translate_identity hlt, ?_, fun va tr ht ↦ h.wxorx ht⟩
  · intro s hs j hj
    obtain ⟨hlow, hhigh⟩ := hhigher s hs
    have hc : Canonical (s.virtualAddress + j) := by
      simp only [Canonical, kernelVirtualBase] at *
      omega
    exact h.translate_segment hs hj hc
  · rintro physical (hlt | ⟨hp, hlo, hhi⟩)
    · exact h.translate_window hram hlt
    · obtain ⟨i, hi, he⟩ := screen_page hp (by omega) hlo hhi
      refine h.translate_screen_page ?_ hi he (h.window_not_tabled hhigher (by omega))
      simp only [defaultPhysicalMemoryOffset, u64Max]
      omega
  · intro va hnk hnw hns hni
    exact h.unmapped hram (by omega) hhigher hnk hnw hns hni

/-- The small kernel lies in the higher half. -/
theorem loopSegment_higherHalf : loopSegment.HigherHalf := by
  simp only [Segment.HigherHalf, loopSegment, kernelVirtualBase]
  omega

/-- A screen whose first half lies in the last 4 MiB of 16 MiB of RAM. -/
def loopScreen : Framebuffer := ⟨0xC00000, 0x800000, 1920, 1080, 7680, .bgrx8888⟩

/-- The small kernel on a machine with 16 MiB of RAM and a screen that starts in RAM: its entry
point is executable code in its allocation, and the last byte of RAM, which the window maps
before the screen's step comes to it, and the last byte of the screen are in the window. -/
theorem addressSpace_exact_loop_kernel :
    ∃ t t', PageTables.new (fun _ ↦ 0) 0x200000 256 = some (.ok t) ∧
      buildAddressSpace loopImage 0xFFFFFFFF80000000 0x100000 0x1000000 loopScreen t =
        some (.ok (), t') ∧
      (∃ permissions, loopSegment.permissions = .ok permissions ∧
        walk t'.memory t'.cr3Value 0xFFFFFFFF80000000 = some ⟨0x100000, permissions⟩) ∧
      walk t'.memory t'.cr3Value (defaultPhysicalMemoryOffset + 0xFFFFFF) =
        some ⟨0xFFFFFF, .readWrite⟩ ∧
      walk t'.memory t'.cr3Value (defaultPhysicalMemoryOffset + 0x13FFFFF) =
        some ⟨0x13FFFFF, .readWrite⟩ := by
  obtain ⟨t, hnew, hwf, hview, -, hframes, -, hnext, -⟩ :=
    PageTables.new_spec (fun _ ↦ 0) 0x200000 256 (by decide) (by decide) (by decide)
  obtain ⟨t', hrun⟩ : ∃ t', buildAddressSpace loopImage 0xFFFFFFFF80000000 0x100000 0x1000000
      loopScreen t = some (.ok (), t') :=
    buildAddressSpace_total hwf hview segments_loopImage (loopSegment_small (by decide)
      (by decide)) loopSegment_higherHalf (by decide) (by decide)
      (by rw [hnext, hframes]; decide)
  have hexact := addressSpace_exact segments_loopImage (by
      intro s hs
      rw [List.mem_singleton.mp hs]
      exact loopSegment_higherHalf) (by
      intro s hs k hk
      rw [List.mem_singleton.mp hs] at hk ⊢
      simp only [loopSegment, Segment.destination] at *
      omega) (by decide) (by decide) hnew hrun
  exact ⟨t, t', hnew, hrun, hexact.1 loopSegment (by simp) 0 (by decide),
    hexact.2.1 0xFFFFFF (.inl (by decide)), hexact.2.1 0x13FFFFF (.inr (by decide))⟩

end LokoOS.Boot
