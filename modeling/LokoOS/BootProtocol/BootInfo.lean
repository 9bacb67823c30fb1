import LokoOS.BootProtocol.MemoryMap

/-!
# The structure that crosses the boot boundary

`boot/loko-boot-protocol/src/lib.rs:24–57,138–289,332–388`. The pointer to the memory map
is kept as an address; the slice it describes is passed beside the structure, as the
validator's caller promises it is readable.
-/

namespace LokoOS.BootProtocol
open LokoOS.Base

/-- Spells "LOKOBOOT" little-endian; `lib.rs:29`. -/
def bootMagic : Nat := "LOKOBOOT".toList.foldr (fun c rest ↦ c.toNat + 256 * rest) 0

/-- Where all of physical memory is mapped; `lib.rs:41`. -/
def defaultPhysicalMemoryOffset : Nat := 0xFFFF800000000000

/-- Where the kernel image is linked to run; `lib.rs:44`. -/
def kernelVirtualBase : Nat := 0xFFFFFFFF80000000

/-- The major version a kernel requires; `lib.rs:51`. -/
def protocolVersionMajor : Nat := 0

/-- The minor version, additive only; `lib.rs:53`. -/
def protocolVersionMinor : Nat := 1

/-- The pixel layout of the framebuffer; `lib.rs:141`. -/
inductive PixelFormat where
  | bgrx8888
  | rgbx8888
  deriving DecidableEq, Repr

/-- A linear framebuffer; `lib.rs:164`. -/
structure Framebuffer where
  base : Nat
  size : Nat
  width : Nat
  height : Nat
  strideBytes : Nat
  format : PixelFormat
  deriving DecidableEq, Repr

/-- An explicitly absent framebuffer; `lib.rs:181`. -/
def Framebuffer.none : Framebuffer := ⟨0, 0, 0, 0, 0, .bgrx8888⟩

/-- Whether the firmware gave a framebuffer; `lib.rs:192`. -/
def Framebuffer.isPresent (fb : Framebuffer) : Bool := fb.base != 0 && fb.size != 0

/-- Everything the bootloader tells the kernel; `lib.rs:246`. -/
structure BootInfo where
  magic : Nat
  versionMajor : Nat
  versionMinor : Nat
  size : Nat
  memoryMap : Nat
  memoryMapLen : Nat
  physicalMemoryOffset : Nat
  rsdpAddr : Nat
  kernelPhysicalBase : Nat
  kernelVirtualBase : Nat
  kernelSize : Nat
  framebuffer : Framebuffer
  flags : Nat
  reserved : Nat
  deriving DecidableEq, Repr

/-- Bytes in the C layout of `BootInfo`: two 16-bit versions and a 32-bit size packed
into one word, eight other words, a 32-byte framebuffer and two 32-bit words. -/
def sizeOfBootInfo : Nat := 8 + 8 + 7 * 8 + 32 + 8

/-- Bytes in the C layout of `MemoryRegion`; `lib.rs:577`. -/
def sizeOfMemoryRegion : Nat := 24

/-- Check everything that can be checked before trusting a field; `lib.rs:343`. The slice
is what `memoryMap` and `memoryMapLen` describe. -/
def BootInfo.validate (info : BootInfo) (regions : List MemoryRegion) :
    Except BootInfoError Unit :=
  if info.magic ≠ bootMagic then .error .badMagic
  else if info.versionMajor ≠ protocolVersionMajor then
    .error (.versionMismatch info.versionMajor protocolVersionMajor)
  else if info.size < sizeOfBootInfo then .error .tooSmall
  else if info.memoryMap = 0 ∨ info.memoryMapLen = 0 then .error .noMemoryMap
  else if info.physicalMemoryOffset % 4096 ≠ 0 then .error .misalignedPhysicalOffset
  else validateMemoryMap regions

/-- Total bytes of memory usable at handoff; `lib.rs:377`. The slice is what `memoryMap` and
`memoryMapLen` describe. -/
def BootInfo.usableBytes (regions : List MemoryRegion) : Option Nat :=
  sumU64 ((regions.filter fun r ↦ r.kind.usableAtHandoff).map MemoryRegion.len)

/-- An accepted description carries an accepted memory map and an aligned offset. -/
theorem BootInfo.validate_eq_ok {info : BootInfo} {regions : List MemoryRegion}
    (h : info.validate regions = .ok ()) :
    validateMemoryMap regions = .ok () ∧ info.physicalMemoryOffset % 4096 = 0 := by
  unfold BootInfo.validate at h
  repeat' split at h
  all_goals first | cases h | exact ⟨h, by omega⟩

end LokoOS.BootProtocol
