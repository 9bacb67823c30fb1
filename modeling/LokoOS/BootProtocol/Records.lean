import LokoOS.Base.Layout
import LokoOS.BootProtocol.Pixels

/-!
# The records of the boot protocol in memory

`boot/loko-boot-protocol/src/lib.rs:59–78,103–116,139–180,246–289`. The structures are laid out
as C does, and no field needs padding. A discriminant outside an enumeration has no value.
-/

namespace LokoOS.BootProtocol
open LokoOS.Base

/-- The discriminant of a kind; `lib.rs:61–78`. -/
def MemoryKind.discriminant : MemoryKind → Nat
  | .usable => 0
  | .reserved => 1
  | .bootloaderReclaimable => 2
  | .kernelAndModules => 3
  | .acpiReclaimable => 4
  | .acpiNvs => 5
  | .badMemory => 6
  | .framebuffer => 7

/-- The kind with a discriminant. -/
def MemoryKind.ofDiscriminant : Nat → Option MemoryKind
  | 0 => some .usable
  | 1 => some .reserved
  | 2 => some .bootloaderReclaimable
  | 3 => some .kernelAndModules
  | 4 => some .acpiReclaimable
  | 5 => some .acpiNvs
  | 6 => some .badMemory
  | 7 => some .framebuffer
  | _ => none

/-- Each kind is found by its discriminant. -/
theorem MemoryKind.ofDiscriminant_discriminant (kind : MemoryKind) :
    ofDiscriminant kind.discriminant = some kind := by
  cases kind <;> rfl

/-- A discriminant is that of the kind it gives. -/
theorem MemoryKind.discriminant_ofDiscriminant (n : Nat) (kind : MemoryKind)
    (h : ofDiscriminant n = some kind) : kind.discriminant = n := by
  unfold ofDiscriminant at h
  split at h <;> cases h <;> rfl

/-- The discriminant of a pixel format; `lib.rs:140–146`. -/
def PixelFormat.discriminant : PixelFormat → Nat
  | .bgrx8888 => 0
  | .rgbx8888 => 1

/-- The pixel format with a discriminant. -/
def PixelFormat.ofDiscriminant : Nat → Option PixelFormat
  | 0 => some .bgrx8888
  | 1 => some .rgbx8888
  | _ => none

/-- Each format is found by its discriminant. -/
theorem PixelFormat.ofDiscriminant_discriminant (format : PixelFormat) :
    ofDiscriminant format.discriminant = some format := by
  cases format <;> rfl

/-- A discriminant is that of the format it gives. -/
theorem PixelFormat.discriminant_ofDiscriminant (n : Nat) (format : PixelFormat)
    (h : ofDiscriminant n = some format) : format.discriminant = n := by
  unfold ofDiscriminant at h
  split at h <;> cases h <;> rfl

/-- `#[repr(u32)] enum MemoryKind`; `lib.rs:61`. -/
def MemoryKind.layout : Layout MemoryKind :=
  (Layout.word 4).tagged discriminant ofDiscriminant ofDiscriminant_discriminant
    discriminant_ofDiscriminant

/-- `#[repr(u32)] enum PixelFormat`; `lib.rs:141`. -/
def PixelFormat.layout : Layout PixelFormat :=
  (Layout.word 4).tagged discriminant ofDiscriminant ofDiscriminant_discriminant
    discriminant_ofDiscriminant

/-- `#[repr(C)] struct MemoryRegion`; `lib.rs:106`. -/
def MemoryRegion.layout : Layout MemoryRegion :=
  ((Layout.word 8).both ((Layout.word 8).both (MemoryKind.layout.both (Layout.word 4)))).renamed
    (fun x ↦ ⟨x.1, x.2.1, x.2.2.1, x.2.2.2⟩) (fun r ↦ (r.start, r.len, r.kind, r.reserved))
    (fun _ ↦ rfl) (fun _ ↦ rfl)

/-- `#[repr(C)] struct Framebuffer`; `lib.rs:164`. -/
def Framebuffer.layout : Layout Framebuffer :=
  ((Layout.word 8).both ((Layout.word 8).both ((Layout.word 4).both ((Layout.word 4).both
    ((Layout.word 4).both PixelFormat.layout))))).renamed
    (fun x ↦ ⟨x.1, x.2.1, x.2.2.1, x.2.2.2.1, x.2.2.2.2.1, x.2.2.2.2.2⟩)
    (fun fb ↦ (fb.base, fb.size, fb.width, fb.height, fb.strideBytes, fb.format))
    (fun _ ↦ rfl) (fun _ ↦ rfl)

/-- The fields of `BootInfo` in their order. -/
private def fieldsLayout :=
  (Layout.word 8).both ((Layout.word 2).both ((Layout.word 2).both ((Layout.word 4).both
    ((Layout.word 8).both ((Layout.word 8).both ((Layout.word 8).both ((Layout.word 8).both
      ((Layout.word 8).both ((Layout.word 8).both ((Layout.word 8).both
        (Framebuffer.layout.both ((Layout.word 4).both (Layout.word 4)))))))))))))

/-- `#[repr(C)] struct BootInfo`; `lib.rs:246`. -/
def BootInfo.layout : Layout BootInfo :=
  fieldsLayout.renamed
    (fun ⟨magic, major, minor, size, map, len, offset, rsdp, physical, virtualBase, kernelSize, fb,
      flags, reserved⟩ ↦ ⟨magic, major, minor, size, map, len, offset, rsdp, physical, virtualBase,
      kernelSize, fb, flags, reserved⟩)
    (fun i ↦ (i.magic, i.versionMajor, i.versionMinor, i.size, i.memoryMap, i.memoryMapLen,
      i.physicalMemoryOffset, i.rsdpAddr, i.kernelPhysicalBase, i.kernelVirtualBase, i.kernelSize,
      i.framebuffer, i.flags, i.reserved))
    (fun _ ↦ rfl) (fun _ ↦ rfl)

/-- A region takes as many bytes as the loader counts for it. -/
@[simp] theorem MemoryRegion.layout_size : MemoryRegion.layout.size = sizeOfMemoryRegion := rfl

/-- The record takes as many bytes as it says. -/
@[simp] theorem BootInfo.layout_size : BootInfo.layout.size = sizeOfBootInfo := rfl

/-- A region has an encoding when its fields have values of their types. -/
theorem MemoryRegion.fits_iff {r : MemoryRegion} :
    MemoryRegion.layout.Fits r ↔
      r.start ≤ u64Max ∧ r.len ≤ u64Max ∧ r.reserved ≤ u32Max := by
  have hkind : r.kind.discriminant < 256 ^ 4 := by
    cases r.kind <;> decide
  simp only [MemoryRegion.layout, MemoryKind.layout, Layout.renamed, Layout.both, Layout.word,
    Layout.tagged, hkind, true_and, u64Max, u32Max]
  omega

/-- A framebuffer has an encoding when its fields have values of their types. -/
theorem Framebuffer.fits_of_inType {fb : Framebuffer} (h : fb.InType) :
    Framebuffer.layout.Fits fb := by
  have hformat : fb.format.discriminant < 256 ^ 4 := by
    cases fb.format <;> decide
  obtain ⟨hbase, hsize, hwidth, hheight, hstride⟩ := h
  simp only [Framebuffer.layout, PixelFormat.layout, Layout.renamed, Layout.both, Layout.word,
    Layout.tagged, hformat, and_true]
  simp only [u64Max, u32Max] at *
  omega

/-- The record has an encoding when its fields have values of their types. -/
theorem BootInfo.fits_iff {i : BootInfo} :
    BootInfo.layout.Fits i ↔
      i.magic ≤ u64Max ∧ i.versionMajor < 2 ^ 16 ∧ i.versionMinor < 2 ^ 16 ∧ i.size ≤ u32Max ∧
      i.memoryMap ≤ u64Max ∧ i.memoryMapLen ≤ u64Max ∧ i.physicalMemoryOffset ≤ u64Max ∧
      i.rsdpAddr ≤ u64Max ∧ i.kernelPhysicalBase ≤ u64Max ∧ i.kernelVirtualBase ≤ u64Max ∧
      i.kernelSize ≤ u64Max ∧ Framebuffer.layout.Fits i.framebuffer ∧ i.flags ≤ u32Max ∧
      i.reserved ≤ u32Max := by
  have h8 (n : Nat) : n < 256 ^ 8 ↔ n ≤ u64Max := by
    simp only [u64Max]
    omega
  have h4 (n : Nat) : n < 256 ^ 4 ↔ n ≤ u32Max := by
    simp only [u32Max]
    omega
  have h2 (n : Nat) : n < 256 ^ 2 ↔ n < 2 ^ 16 := by omega
  simp only [BootInfo.layout, fieldsLayout, Layout.renamed, Layout.both, Layout.word, h8, h4, h2]

end LokoOS.BootProtocol
