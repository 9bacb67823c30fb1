import LokoOS.Kernel.Framebuffer
import LokoOS.Kernel.SetupHeap
import LokoOS.Memory.FirstFit

/-!
# The kernel's entry point

`kernel/loko-kernel/src/main.rs:71–267`. After the description is validated its fields are used
in checked arithmetic: the address of the screen in the physical window, the managed bytes,
and the address of the heap. What the validator accepts does not bound the first and the last.
-/

namespace LokoOS.Kernel
open LokoOS.Base LokoOS.BootProtocol LokoOS.Memory FrameAllocator

/-- The stop-screen text of a null pointer; `main.rs:92`. -/
def notDescribed : String :=
  "LokoOS could not start: the bootloader did not describe this device."

/-- Record the screen at its address in the physical window; `main.rs:120–144`. -/
def mapSurface (info : BootInfo) (surface : Option Framebuffer) : Option (Option Framebuffer) :=
  if info.framebuffer.isPresent then do
    let base ← addU64 info.framebuffer.base info.physicalMemoryOffset
    return init { info.framebuffer with base := base } surface
  else return surface

/-- The end of the highest region that is usable at handoff; `main.rs:174–179`. -/
def highestUsable (regions : List MemoryRegion) : Nat :=
  highest (regions.filter fun r ↦ r.kind.usableAtHandoff)

/-- The bytes of usable memory that the allocator does not manage; `main.rs:195–203`. -/
def unmanagedBytes (frames : FrameAllocator) (regions : List MemoryRegion) : Option Nat := do
  let managed ← mulU64 frames.totalFrames frameSize
  if highestUsable regions > managed then subU64 (highestUsable regions) managed else return 0

/-- Addressable and free memory in MiB; `main.rs:256–258`. -/
def report (frames : FrameAllocator) : Option (Nat × Nat) := do
  let total ← mulU64 frames.totalFrames frameSize
  let free ← frames.freeBytes
  return (total / (1024 * 1024), free / (1024 * 1024))

/-- What the kernel has when it halts: the screen, the allocator, and the heap's address and
size. -/
structure Started where
  surface : Option Framebuffer
  frames : FrameAllocator
  heap : Nat × Nat
  deriving DecidableEq

/-- The kernel entry point; `main.rs:80`. An error is the text of the stop screen. The screen
is recorded before memory is set up, and the number of frames that the warning in
`setup_memory` reads is that of the allocator it returns. -/
def start (bitmap : List (BitVec 64)) (bootInfo : Option BootInfo)
    (regions : List MemoryRegion) : Option (Except String Started) :=
  match bootInfo with
  | none => some (.error notDescribed)
  | some info =>
    match info.validate regions with
    | .error e => some (.error e.message)
    | .ok () => do
      let surface ← mapSurface info none
      match ← setupMemory bitmap info regions with
      | .error message => return .error message
      | .ok frames =>
        let _ ← unmanagedBytes frames regions
        match ← setupHeap info.physicalMemoryOffset frames with
        | (.error message, _) => return .error message
        | (.ok heap, frames) =>
          let _ ← report frames
          return .ok ⟨surface, frames, heap⟩

variable {a : FrameAllocator} {bitmap : List (BitVec 64)} {info : BootInfo}
  {regions : List MemoryRegion}

/-! ### What cannot overflow -/

/-- An allocator whose frames end below 2^64 has a number of unmanaged bytes. -/
theorem unmanagedBytes_ne_none (regions : List MemoryRegion)
    (h : a.totalFrames * frameSize ≤ u64Max) :
    ∃ n, unmanagedBytes a regions = some n := by
  unfold unmanagedBytes
  rw [mulU64_of_le h, Option.bind_eq_bind, Option.bind_some]
  split
  · next hlt => exact ⟨_, subU64_of_le (Nat.le_of_lt hlt)⟩
  · exact ⟨0, rfl⟩

private theorem report_ne_none (hwf : a.WF) (h : a.totalFrames * frameSize ≤ u64Max) :
    ∃ n, report a = some n := by
  have hfree : a.freeSet.card * frameSize ≤ u64Max := by
    have hcount := hwf.counted
    have hle : a.freeSet.card ≤ a.totalFrames := by
      rw [totalFrames]
      omega
    exact (Nat.mul_le_mul_right _ hle).trans h
  unfold report freeBytes
  rw [mulU64_of_le h, hwf.freeFrames_eq]
  simp only [Option.bind_eq_bind, Option.bind_some, mulU64_of_le hfree]
  exact ⟨_, rfl⟩

/-! ### What can -/

/-- The screen is recorded exactly when its address in the window is below 2^64. -/
theorem mapSurface_returns_iff (surface : Option Framebuffer) :
    (∃ s, mapSurface info surface = some s) ↔
      (info.framebuffer.isPresent = true →
        info.framebuffer.base + info.physicalMemoryOffset ≤ u64Max) := by
  unfold mapSurface
  split
  · next hp =>
    constructor
    · intro h _
      obtain ⟨s, hs⟩ := h
      rw [Option.bind_eq_bind, Option.bind_eq_some_iff] at hs
      obtain ⟨base, hadd, -⟩ := hs
      exact (addU64_eq_some.mp hadd).1
    · intro h
      rw [addU64_of_le (h hp)]
      exact ⟨_, rfl⟩
  · next hp =>
    constructor
    · intro _ hp'
      exact absurd hp' hp
    · intro _
      exact ⟨_, rfl⟩

/-- A frame that the kernel may allocate: managed, in a usable region and not in use. -/
def Available (bitmap : List (BitVec 64)) (info : BootInfo) (regions : List MemoryRegion)
    (f : Nat) : Prop :=
  f < managedFrames bitmap regions ∧ UsableFrame regions f ∧ ¬ InUse info regions f

/-- As many frames from `f` on as the heap needs are available. -/
def HeapFits (bitmap : List (BitVec 64)) (info : BootInfo) (regions : List MemoryRegion)
    (f : Nat) : Prop :=
  ∀ g ∈ runOf f (divCeil heapSize frameSize), Available bitmap info regions g

/-- `f` is the lowest frame from which the heap fits. -/
structure LowestFit (bitmap : List (BitVec 64)) (info : BootInfo) (regions : List MemoryRegion)
    (f : Nat) : Prop where
  fits : HeapFits bitmap info regions f
  lowest : ∀ g < f, ¬ HeapFits bitmap info regions g

/-- Two lowest frames are the same. -/
theorem LowestFit.unique {f g : Nat} (h : LowestFit bitmap info regions f)
    (h' : LowestFit bitmap info regions g) : f = g := by
  rcases Nat.lt_trichotomy f g with hlt | heq | hgt
  · exact absurd h.fits (h'.lowest f hlt)
  · exact heq
  · exact absurd h'.fits (h.lowest g hgt)

private theorem reserveInUse_keeps_cursor (info : BootInfo) (regions : List MemoryRegion) :
    Proc.Keeps cursor (reserveInUse info regions) := by
  apply Proc.Keeps.bind (apart_cursor.reserveRange _ _)
  intro _
  apply Proc.Keeps.bind
  · exact .ite (apart_cursor.reserveRange _ _) (.pure ())
  · intro _
    apply Proc.Keeps.bind
    · exact .forEach fun region ↦ .ite (apart_cursor.reserveRange _ _) (.pure ())
    · intro _
      exact .bind (.attempt (apart_cursor.reserve 0)) fun _ ↦ .pure ()

private theorem setupMemory_cursor (h : setupMemory bitmap info regions = some (.ok a)) :
    a.cursor = 0 := by
  unfold setupMemory at h
  split at h
  · cases h
  · cases h
  · next a₀ hmap =>
    simp only [Option.bind_eq_bind, Option.bind_eq_some_iff] at h
    obtain ⟨_, -, ⟨r, a₁⟩, hreserve, _, -, he⟩ := h
    split at he
    · cases he
      rw [reserveInUse_keeps_cursor info regions a₀ r a₁ hreserve]
      exact fromMemoryMap_cursor hmap
    · cases he

/-- The allocator as memory setup leaves it: its first search starts at frame zero and the free
frames are the available ones. -/
structure Prepared (bitmap : List (BitVec 64)) (info : BootInfo) (regions : List MemoryRegion)
    (a : FrameAllocator) : Prop where
  wf : a.WF
  cursor_eq : a.cursor = 0
  total : a.totalFrames * frameSize ≤ u64Max
  free : ∀ f, f ∈ a.freeSet ↔ Available bitmap info regions f

/-- Memory setup on an accepted map leaves a prepared allocator. -/
theorem setupMemory_prepared (hv : validateMemoryMap regions = .ok ())
    (bitmap : List (BitVec 64)) (info : BootInfo) :
    ∃ a, setupMemory bitmap info regions = some (.ok a) ∧ Prepared bitmap info regions a := by
  obtain ⟨a, hsetup, hwf, hmanaged, hfree⟩ :=
    setupMemory_spec (validateMemoryMap_eq_ok_iff.mp hv) bitmap info
  have htotal : a.totalFrames = managedFrames bitmap regions := by
    rw [totalFrames, ← card_managed, hmanaged, Finset.card_range]
  refine ⟨a, hsetup, hwf, setupMemory_cursor hsetup, ?_, fun f ↦ ?_⟩
  · rw [htotal]
    exact (managedFrames_mul_le bitmap regions).trans (highest_le regions)
  · rw [hfree, Finset.mem_filter, hmanaged, Finset.mem_range, Available]

/-- An available frame starts below 2^64. -/
theorem Available.start_le {f : Nat} (h : Available bitmap info regions f) :
    f * frameSize ≤ u64Max :=
  calc f * frameSize
      ≤ managedFrames bitmap regions * frameSize := Nat.mul_le_mul_right _ (Nat.le_of_lt h.1)
    _ ≤ highest regions := managedFrames_mul_le bitmap regions
    _ ≤ u64Max := highest_le regions

/-- The heap is allocated in the lowest run of frames in which it fits, or it fits nowhere. -/
theorem Prepared.allocate_heap (h : Prepared bitmap info regions a) :
    (∃ f a', allocateContiguous (divCeil heapSize frameSize) a = some (.ok f, a') ∧
      LowestFit bitmap info regions f ∧ a'.WF ∧ a'.totalFrames = a.totalFrames) ∨
    (allocateContiguous (divCeil heapSize frameSize) a = some (.error .outOfMemory, a) ∧
      ∀ f, ¬ HeapFits bitmap info regions f) := by
  have hfits (g : Nat) : runOf g (divCeil heapSize frameSize) ⊆ a.freeSet ↔
      HeapFits bitmap info regions g := by
    unfold HeapFits
    simp only [Finset.subset_iff, h.free]
  rcases allocateContiguous_spec h.wf (divCeil heapSize frameSize) with
    ⟨f, a', halloc, -, hsub, hb⟩ | ⟨halloc, hnone⟩
  · refine .inl ⟨f, a', halloc, ⟨(hfits f).mp hsub, fun g hg hg' ↦ ?_⟩, hb.wf, hb.frames_eq⟩
    exact allocateContiguous_lowest h.wf h.cursor_eq halloc hg ((hfits g).mpr hg')
  · refine .inr ⟨halloc, fun g hg ↦ ?_⟩
    exact hnone (by decide) g ((hfits g).mpr hg)

/-- Setting up the heap comes back exactly when the heap fits nowhere or the lowest run in which
it fits has a 64-bit address in the window. An allocator that it leaves can be reported. -/
theorem Prepared.setupHeap_returns_iff (h : Prepared bitmap info regions a) (offset : Nat) :
    ((∃ r, setupHeap offset a = some r) ↔
      ∀ f, LowestFit bitmap info regions f → offset + f * frameSize ≤ u64Max) ∧
    ∀ heap a', setupHeap offset a = some (.ok heap, a') → ∃ n, report a' = some n := by
  rcases h.allocate_heap with ⟨f, a', halloc, hlow, hwf, htotal⟩ | ⟨halloc, hnone⟩
  · have hmem : f ∈ runOf f (divCeil heapSize frameSize) :=
      mem_runOf.mpr ⟨Nat.le_refl f, Nat.lt_add_of_pos_right (by decide)⟩
    have hrun : setupHeap offset a =
        (addU64 offset (f * frameSize)).map fun virt ↦ (.ok (virt, heapSize), a') := by
      unfold setupHeap
      rw [Proc.run_bind_ok (Proc.mapError_eq_ok.mpr halloc), FrameNumber.startAddress,
        mulU64_of_le (hlow.fits f hmem).start_le, Proc.run_bind_ok rfl]
      cases addU64 offset (f * frameSize) with
      | none => rfl
      | some virt => rfl
    rw [hrun]
    constructor
    · constructor
      · intro hr g hg
        obtain ⟨r, hr⟩ := hr
        rw [Option.map_eq_some_iff] at hr
        obtain ⟨virt, hadd, -⟩ := hr
        rw [hg.unique hlow]
        exact (addU64_eq_some.mp hadd).1
      · intro hall
        rw [addU64_of_le (hall f hlow)]
        exact ⟨_, rfl⟩
    · intro heap b hr
      rw [Option.map_eq_some_iff] at hr
      obtain ⟨virt, -, he⟩ := hr
      cases he
      apply report_ne_none hwf
      rw [htotal]
      exact h.total
  · have hrun : setupHeap offset a =
        some (.error "LokoOS could not start: there isn't enough memory in this device.", a) := by
      unfold setupHeap
      rw [Proc.run_bind, Proc.mapError, halloc]
      rfl
    rw [hrun]
    constructor
    · constructor
      · intro _ g hg
        exact absurd hg.fits (hnone g)
      · intro _
        exact ⟨_, rfl⟩
    · intro heap b he
      cases he

private theorem start_returns_of_prepared (hv : info.validate regions = .ok ())
    (hsetup : setupMemory bitmap info regions = some (.ok a))
    (h : Prepared bitmap info regions a) :
    (∃ r, start bitmap (some info) regions = some r) ↔
      (∃ s, mapSurface info none = some s) ∧
        ∃ r, setupHeap info.physicalMemoryOffset a = some r := by
  obtain ⟨n, hunmanaged⟩ := unmanagedBytes_ne_none regions h.total
  unfold start
  simp only [hv, hsetup, Option.bind_eq_bind, Option.bind_some]
  constructor
  · intro hr
    obtain ⟨r, hr⟩ := hr
    rw [Option.bind_eq_some_iff] at hr
    obtain ⟨s, hs, hr⟩ := hr
    rw [hunmanaged, Option.bind_some, Option.bind_eq_some_iff] at hr
    obtain ⟨heap, hheap, -⟩ := hr
    exact ⟨⟨s, hs⟩, heap, hheap⟩
  · rintro ⟨⟨s, hs⟩, ⟨heap, after⟩, hrun⟩
    rw [hs, Option.bind_some, hunmanaged, Option.bind_some, hrun, Option.bind_some]
    cases heap with
    | error message => exact ⟨_, rfl⟩
    | ok heap =>
      obtain ⟨m, hm⟩ := (h.setupHeap_returns_iff _).2 heap after hrun
      simp only [hm, Option.bind_some]
      exact ⟨_, rfl⟩

/-- A description that the validator accepts is safe to compute with exactly when the screen,
if there is one, is at a 64-bit address of the window, and so is the lowest run of frames in
which the heap fits, if there is one. -/
theorem start_returns_iff (hv : info.validate regions = .ok ()) (bitmap : List (BitVec 64)) :
    (∃ r, start bitmap (some info) regions = some r) ↔
      (info.framebuffer.isPresent = true →
        info.framebuffer.base + info.physicalMemoryOffset ≤ u64Max) ∧
      ∀ f, LowestFit bitmap info regions f →
        info.physicalMemoryOffset + f * frameSize ≤ u64Max := by
  obtain ⟨frames, hsetup, hprepared⟩ :=
    setupMemory_prepared (BootInfo.validate_eq_ok hv).1 bitmap info
  rw [start_returns_of_prepared hv hsetup hprepared, mapSurface_returns_iff,
    (hprepared.setupHeap_returns_iff _).1]

/-- A description with the screen and the physical window at given addresses. -/
def described (screen offset : Nat) : BootInfo :=
  ⟨bootMagic, protocolVersionMajor, protocolVersionMinor, sizeOfBootInfo, 4096, 1, offset, 0,
    0x200000, kernelVirtualBase, 0x100000, ⟨screen, 0x300000, 1024, 768, 4096, .bgrx8888⟩, 0, 0⟩

/-- The static bitmap of the kernel; `main.rs:60`. -/
def frameBitmap : List (BitVec 64) := List.replicate bitmapWords 0#64

/-- A map of 16 MiB of usable memory. -/
def smallMap : List MemoryRegion := [⟨0, 0x1000000, .usable, 0⟩]

/-- Where the bootloader puts the window the kernel starts. -/
theorem start_returns_described :
    ∃ r, start frameBitmap (some (described 0xE0000000 defaultPhysicalMemoryOffset)) smallMap =
      some r := by
  apply (start_returns_iff (by decide) frameBitmap).mpr
  constructor
  · intro _
    decide
  · intro f hf
    obtain ⟨-, ⟨r, hr, -, -, hend⟩, -⟩ :=
      hf.fits f (mem_runOf.mpr ⟨Nat.le_refl f, Nat.lt_add_of_pos_right (by decide)⟩)
    rw [List.mem_singleton.mp hr] at hend
    simp only [frameSize] at hend
    simp only [described, defaultPhysicalMemoryOffset, frameSize, u64Max]
    omega

private theorem lowestFit_smallMap (offset : Nat) :
    LowestFit frameBitmap (described 0 offset) smallMap 1 := by
  have hmanaged : managedFrames frameBitmap smallMap = 4096 := by
    rw [managedFrames, frameBitmap, List.length_replicate]
    decide
  have hneeded : divCeil heapSize frameSize = 256 := by decide
  constructor
  · intro g hg
    rw [mem_runOf, hneeded] at hg
    refine ⟨by omega, ⟨_, List.mem_singleton.mpr rfl, rfl, ?_⟩, ?_⟩
    · simp only [FrameIn, frameSize]
      omega
    · rintro (h | h | h | ⟨r, hr, hk, -⟩)
      · omega
      · simp only [Overlaps, described, frameSize] at h
        omega
      · cases h.1
      · rw [List.mem_singleton.mp hr] at hk
        cases hk
  · intro g hg hfit
    have hmem : 0 ∈ runOf g (divCeil heapSize frameSize) :=
      mem_runOf.mpr ⟨by omega, by omega⟩
    exact (hfit 0 hmem).2.2 (.inl rfl)

/-- The validator accepts a screen that ends at the end of memory and a window in the last
page; on the first the address of the screen overflows, on the second that of the heap. -/
theorem start_panics_described :
    ((described (2 ^ 64 - 0x300000) defaultPhysicalMemoryOffset).validate smallMap = .ok () ∧
      start frameBitmap
        (some (described (2 ^ 64 - 0x300000) defaultPhysicalMemoryOffset)) smallMap = none) ∧
    (described 0 (2 ^ 64 - 4096)).validate smallMap = .ok () ∧
      start frameBitmap (some (described 0 (2 ^ 64 - 4096))) smallMap = none := by
  refine ⟨⟨by decide, rfl⟩, by decide, ?_⟩
  have hv : (described 0 (2 ^ 64 - 4096)).validate smallMap = .ok () := by decide
  obtain ⟨frames, hsetup, hprepared⟩ :=
    setupMemory_prepared (BootInfo.validate_eq_ok hv).1 frameBitmap (described 0 (2 ^ 64 - 4096))
  apply Option.eq_none_iff_forall_ne_some.mpr
  intro r hr
  have hheap := ((start_returns_of_prepared hv hsetup hprepared).mp ⟨r, hr⟩).2
  have hle := (hprepared.setupHeap_returns_iff _).1.mp hheap 1 (lowestFit_smallMap _)
  simp only [described, frameSize, u64Max] at hle
  omega

end LokoOS.Kernel
