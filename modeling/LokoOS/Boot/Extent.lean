import LokoOS.Boot.Headers
import LokoOS.Boot.LoadKernel

/-!
# Laying out the kernel

`boot/loko-boot/src/elf.rs:234–251` with `main.rs:108–127,338–358`. The physical allocation for
the kernel is sized from the extent of its segments. The ends of the segments are added up
without having been checked, and the largest address stands for no segments.
-/

namespace LokoOS.Boot
open LokoOS.Base

variable {data : List UInt8} {image : Image} {segments : List Segment}
  {lowest highest low high : Nat}

namespace Image

private theorem extentOf_returns_iff :
    (∃ r, extentOf segments lowest highest = some r) ↔
      ∀ s ∈ segments, s.virtualAddress + s.memorySize ≤ u64Max := by
  induction segments generalizing lowest highest with
  | nil => simp [extentOf]
  | cons segment rest ih =>
    by_cases hle : segment.virtualAddress + segment.memorySize ≤ u64Max
    · rw [extentOf, addU64_of_le hle, List.forall_mem_cons]
      constructor
      · intro h
        exact ⟨hle, ih.mp h⟩
      · intro h
        exact ih.mpr h.2
    · constructor
      · intro h
        obtain ⟨r, hr⟩ := h
        rw [extentOf, addU64, if_neg hle] at hr
        cases hr
      · intro h
        exact absurd (h segment List.mem_cons_self) hle

private theorem le_extentOf {bound : Nat} (h : extentOf segments lowest highest = some (low, high))
    (hb : bound ≤ lowest) (hall : ∀ s ∈ segments, bound ≤ s.virtualAddress) : bound ≤ low := by
  cases (extentOf_spec h).2.2.2 with
  | inl he => omega
  | inr he =>
    obtain ⟨s, hs, he⟩ := he
    have := hall s hs
    omega

/-- The segments can be laid out: the extent is computed and covers each of them, and wherever
the kernel is placed below 2^64, each is copied into the pages allocated for the extent. -/
def LaidOut (image : Image) (segments : List Segment) : Prop :=
  ∃ low high, image.virtualExtent = some (low, high) ∧
    (∀ s ∈ segments, low ≤ s.virtualAddress ∧ s.virtualAddress + s.memorySize ≤ high) ∧
    ∀ kernelPhysical, kernelPhysical + (high - low) < 2 ^ 64 → ∀ s ∈ segments,
      kernelPhysical ≤ s.destination low kernelPhysical ∧
        s.destination low kernelPhysical + s.memorySize ≤
          kernelPhysical + divCeil (high - low) pageSize * pageSize

/-- The segments of an accepted file can be laid out exactly when each of them ends in 64 bits
and one of them does not start at the largest address. -/
theorem laidOut_iff {u v : Unit} (h : parse data u = some (.ok image, v)) :
    image.LaidOut (loadable data) ↔
      (∀ s ∈ loadable data, s.virtualAddress + s.memorySize ≤ u64Max) ∧
        ∃ s ∈ loadable data, s.virtualAddress ≠ u64Max := by
  have hsegments := segments_eq_loadable h
  obtain ⟨-, segments, hs, hne, -⟩ := parse_eq_ok h
  obtain rfl := Option.some.inj (hs.symm.trans hsegments)
  unfold LaidOut
  constructor
  · intro hlaid
    obtain ⟨low, high, hextent, hcover, -⟩ := hlaid
    simp only [virtualExtent, hsegments, Option.bind_eq_bind, Option.bind_some,
      Option.bind_eq_some_iff] at hextent
    obtain ⟨⟨lowest, highest⟩, hfold, hextent⟩ := hextent
    refine ⟨extentOf_returns_iff.mp ⟨_, hfold⟩, ?_⟩
    by_contra hnone
    have htop : ∀ s ∈ loadable data, s.virtualAddress = u64Max :=
      fun s hs ↦ by_contra fun hstart ↦ hnone ⟨s, hs, hstart⟩
    -- with every segment at the largest address, the extent is the one of no segments
    have hlowest : u64Max ≤ lowest :=
      le_extentOf hfold le_rfl fun s hs ↦ Nat.le_of_eq (htop s hs).symm
    have hle := (extentOf_spec hfold).1
    have hlargest : lowest = u64Max := by omega
    rw [if_pos hlargest] at hextent
    cases hextent
    obtain ⟨s, hmem⟩ := List.exists_mem_of_ne_nil _ hne
    have hend := (hcover s hmem).2
    have hstart := htop s hmem
    rw [hstart] at hend
    have hpos : 0 < u64Max := by decide
    omega
  · intro hcond
    obtain ⟨hends, t, ht, hstart⟩ := hcond
    have hreturns : ∃ r, extentOf (loadable data) u64Max 0 = some r :=
      extentOf_returns_iff.mpr hends
    obtain ⟨⟨low, high⟩, hfold⟩ := hreturns
    obtain ⟨-, -, hcover, -⟩ := extentOf_spec hfold
    have hlow : low ≠ u64Max := by
      have hin := hcover t ht
      have hend := hends t ht
      omega
    refine ⟨low, high, ?_, hcover, fun kernelPhysical _ s hs ↦ ?_⟩
    · rw [virtualExtent, hsegments]
      simp only [Option.bind_eq_bind, Option.bind_some, hfold, if_neg hlow]
    · exact destination_in_pages kernelPhysical (hcover s hs).1 (hcover s hs).2

end Image

/-- The small kernel with another entry, and its segment at another address and of another
size in memory. -/
def loopKernelAt (entry virtualAddress memorySize : Nat) : List UInt8 :=
  loopKernel.take 0x18 ++ toLeBytes 8 entry ++ (loopKernel.drop 0x20).take 0x30 ++
    toLeBytes 8 virtualAddress ++ (loopKernel.drop 0x58).take 0x10 ++ toLeBytes 8 memorySize ++
    loopKernel.drop 0x70

/-- The image of that kernel. -/
def loopImageAt (entry virtualAddress memorySize : Nat) : Image :=
  { loopImage with data := loopKernelAt entry virtualAddress memorySize, entry := entry }

set_option maxRecDepth 4000 in
/-- The small kernel with its segment eight bytes below 2^64 is accepted, and its extent is a
panic. -/
theorem loopKernel_not_laidOut :
    Image.parse (loopKernelAt 0xFFFFFFFFFFFFFFF8 0xFFFFFFFFFFFFFFF8 16) () =
        some (.ok (loopImageAt 0xFFFFFFFFFFFFFFF8 0xFFFFFFFFFFFFFFF8 16), ()) ∧
      (loopImageAt 0xFFFFFFFFFFFFFFF8 0xFFFFFFFFFFFFFFF8 16).virtualExtent = none ∧
      ¬ (loopImageAt 0xFFFFFFFFFFFFFFF8 0xFFFFFFFFFFFFFFF8 16).LaidOut
        (loadable (loopKernelAt 0xFFFFFFFFFFFFFFF8 0xFFFFFFFFFFFFFFF8 16)) := by
  have hpanic : (loopImageAt 0xFFFFFFFFFFFFFFF8 0xFFFFFFFFFFFFFFF8 16).virtualExtent = none := by
    rfl
  refine ⟨by rfl, hpanic, ?_⟩
  intro h
  obtain ⟨low, high, hextent, -⟩ := h
  rw [hpanic] at hextent
  cases hextent

set_option maxRecDepth 4000 in
/-- The small kernel can be laid out. -/
theorem loopKernel_laidOut : loopImage.LaidOut (loadable loopKernel) := by
  rw [Image.laidOut_iff parse_loopKernel]
  have hl : loadable loopKernel = [loopSegment] := by rfl
  rw [hl]
  constructor
  · intro s hs
    rw [List.mem_singleton.mp hs]
    decide
  · exact ⟨loopSegment, List.mem_singleton_self _, by decide⟩

end LokoOS.Boot
