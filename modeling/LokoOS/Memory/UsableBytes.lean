import LokoOS.Base.Counting
import LokoOS.BootProtocol.BootInfo
import LokoOS.Memory.FromMemoryMap

/-!
# Usable memory counted twice

The bootloader's structure sums the lengths of usable regions,
`boot/loko-boot-protocol/src/lib.rs:377–388`; the allocator counts the frames it released,
`kernel/loko-memory/src/lib.rs:320–330`. Both are compared with the number of addresses that
lie in a usable region.
-/

namespace LokoOS.Memory
open LokoOS.Base LokoOS.BootProtocol FrameAllocator

/-- Address `b` lies in a region that is usable at handoff. -/
def UsableByte (regions : List MemoryRegion) (b : Nat) : Prop :=
  ∃ r ∈ regions, r.kind.usableAtHandoff = true ∧ r.start ≤ b ∧ b < r.start + r.len

instance (regions : List MemoryRegion) (b : Nat) : Decidable (UsableByte regions b) :=
  inferInstanceAs (Decidable (∃ r ∈ regions, _))

/-- How many usable bytes lie below a limit. -/
def usableBytesBelow (regions : List MemoryRegion) (limit : Nat) : Nat :=
  Nat.count (UsableByte regions) limit

variable {regions : List MemoryRegion}

/-! ### The sum -/

private theorem sum_len_eq (hv : ValidMemoryMap regions) {limit : Nat}
    (hlimit : ∀ r ∈ regions, r.start + r.len ≤ limit) :
    ((regions.filter fun r ↦ r.kind.usableAtHandoff).map MemoryRegion.len).sum =
      usableBytesBelow regions limit := by
  have hcount := count_intervals MemoryRegion.start MemoryRegion.len
    (hv.ordered.filter fun r ↦ r.kind.usableAtHandoff)
    (fun r hr ↦ hlimit r (List.mem_filter.mp hr).1)
  rw [← hcount]
  unfold usableBytesBelow
  congr 1
  ext b
  simp only [UsableByte, List.mem_filter, and_assoc]

private theorem usableBytesBelow_le (regions : List MemoryRegion) (limit : Nat) :
    usableBytesBelow regions limit ≤ limit := Nat.count_le _

private theorem le_highest (hv : ValidMemoryMap regions) {r : MemoryRegion} (hr : r ∈ regions) :
    r.start + r.len ≤ highest regions := by
  rw [← (hv.wellFormed r hr).endAddr_eq]
  exact endAddr_le_highest hr

private theorem usableBytes_eq (hv : ValidMemoryMap regions) :
    BootInfo.usableBytes regions = some (usableBytesBelow regions (highest regions)) := by
  have hsum := sum_len_eq hv fun r hr ↦ le_highest hv hr
  have hle := (usableBytesBelow_le regions _).trans (highest_le regions)
  rw [BootInfo.usableBytes, sumU64_of_le (by omega), hsum]

/-! ### The count -/

private theorem usableByte_iff (hv : ValidMemoryMap regions) (b : Nat) :
    UsableByte regions b ↔ UsableFrame regions (b / frameSize) := by
  unfold UsableByte UsableFrame
  apply exists_congr
  intro r
  apply and_congr_right
  intro hr
  apply and_congr_right
  intro _
  have hs := (hv.wellFormed r hr).start_aligned
  have hl := (hv.wellFormed r hr).len_aligned
  simp only [FrameIn, frameSize]
  omega

private theorem count_usableFrame_mul (hv : ValidMemoryMap regions) (n : Nat) :
    Nat.count (UsableFrame regions) n * frameSize = usableBytesBelow regions (n * frameSize) := by
  have hblocks := count_blocks (UsableFrame regions) n (k := frameSize) (by decide)
  rw [← hblocks]
  unfold usableBytesBelow
  congr 1
  ext b
  exact (usableByte_iff hv b).symm

private theorem fromMemoryMap_freeBytes (hv : ValidMemoryMap regions) (bitmap : List (BitVec 64)) :
    ∃ a, fromMemoryMap bitmap regions = some (.ok a) ∧
      a.totalFrames = managedFrames bitmap regions ∧
      a.freeBytes = some (usableBytesBelow regions (a.totalFrames * frameSize)) := by
  rcases fromMemoryMap_spec hv bitmap with ⟨a, hmap, hwf, hbase, hframes, hfree⟩
  refine ⟨a, hmap, hframes, ?_⟩
  have hcard : a.freeSet.card = Nat.count (UsableFrame regions) a.totalFrames := by
    rw [hfree, managed, hbase, Nat.zero_add, ← Finset.range_eq_Ico, Nat.count_eq_card_filter_range]
    rfl
  have hbytes := count_usableFrame_mul hv a.totalFrames
  have hbound : a.totalFrames * frameSize ≤ u64Max := by
    rw [totalFrames, hframes]
    exact (managedFrames_mul_le bitmap regions).trans (highest_le regions)
  have hle := usableBytesBelow_le regions (a.totalFrames * frameSize)
  rw [freeBytes, hwf.freeFrames_eq, Option.bind_some, hcard, mulU64_of_le (by omega), hbytes]

private theorem le_managedFrames_mul (hv : ValidMemoryMap regions) {bitmap : List (BitVec 64)}
    (hsize : bitmapWordsFor (highest regions / frameSize) ≤ bitmap.length) {r : MemoryRegion}
    (hr : r ∈ regions) : r.start + r.len ≤ managedFrames bitmap regions * frameSize := by
  have hcover := le_divCeil_mul (highest regions / frameSize) (show 0 < 64 by decide)
  have hend := le_highest hv hr
  have hhigh := highest_le regions
  have hs := (hv.wellFormed r hr).start_aligned
  have hl := (hv.wellFormed r hr).len_aligned
  have hall : managedFrames bitmap regions = highest regions / frameSize := by
    unfold bitmapWordsFor at hsize
    simp only [managedFrames, saturatingMul]
    rw [← highest]
    apply Nat.min_eq_left
    apply Nat.le_min.mpr
    constructor
    · omega
    · exact (Nat.div_le_self _ _).trans hhigh
  rw [hall]
  simp only [frameSize]
  omega

/-! ### Both agree -/

/-- On every map the validator accepts the sum of the usable lengths is in range, and the
allocator has exactly as many bytes free when its bitmap can describe the map; with a shorter
bitmap it has the usable bytes below its end. No bitmap is too small for the constructor. -/
theorem usable_memory_agrees :
    (∀ regions, validateMemoryMap regions = .ok () →
      ∃ total, BootInfo.usableBytes regions = some total ∧
        ∀ bitmap, ∃ a, fromMemoryMap bitmap regions = some (.ok a) ∧
          a.freeBytes = some (usableBytesBelow regions (a.totalFrames * frameSize)) ∧
          (bitmapWordsFor (highest regions / frameSize) ≤ bitmap.length →
            a.freeBytes = some total)) ∧
      ∀ (bitmap : List (BitVec 64)) (regions : List MemoryRegion),
        (∀ r ∈ regions, r.start ≤ u64Max ∧ r.len ≤ u64Max) →
          ∃ a, fromMemoryMap bitmap regions = some (.ok a) := by
  constructor
  · intro regions hok
    have hv := validateMemoryMap_eq_ok_iff.mp hok
    refine ⟨_, usableBytes_eq hv, ?_⟩
    intro bitmap
    rcases fromMemoryMap_freeBytes hv bitmap with ⟨a, hmap, hframes, hfree⟩
    refine ⟨a, hmap, hfree, ?_⟩
    intro hsize
    rw [hfree, hframes, ← sum_len_eq hv fun r hr ↦ le_managedFrames_mul hv hsize hr,
      ← sum_len_eq hv fun r hr ↦ le_highest hv hr]
  · intro bitmap regions hr
    rcases fromMemoryMap_total hr bitmap with ⟨a, hmap, -⟩
    exact ⟨a, hmap⟩

/-- Two usable regions around a hole that is not usable, and a bitmap of one word. -/
theorem usable_memory_agrees_two_regions :
    ∃ a, fromMemoryMap [0#64] [⟨0x1000, 0x2000, .usable, 0⟩, ⟨0x3000, 0x1000, .reserved, 0⟩,
        ⟨0x8000, 0x4000, .usable, 0⟩] = some (.ok a) ∧ a.freeBytes = some 0x6000 := by
  have hok : validateMemoryMap [⟨0x1000, 0x2000, .usable, 0⟩, ⟨0x3000, 0x1000, .reserved, 0⟩,
      ⟨0x8000, 0x4000, .usable, 0⟩] = .ok () := rfl
  rcases usable_memory_agrees.1 _ hok with ⟨total, hsum, hall⟩
  rcases hall [0#64] with ⟨a, hmap, -, hfull⟩
  refine ⟨a, hmap, ?_⟩
  rw [hfull (by decide), ← hsum]
  rfl

end LokoOS.Memory
