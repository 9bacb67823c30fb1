import LokoOS.Memory.AllocatorSpec

/-!
# The allocator built from a memory map

`kernel/loko-memory/src/lib.rs:98–151`. A fresh allocator owns nothing; each usable region
releases its frames, clamped to the managed range. On a map the validator accepts, the
free frames are exactly the managed frames that lie in a usable region.
-/

namespace LokoOS.Memory
open LokoOS.Base LokoOS.BootProtocol

/-- The page of frame `f` lies inside region `r`. -/
def FrameIn (r : MemoryRegion) (f : Nat) : Prop :=
  r.start ≤ f * frameSize ∧ (f + 1) * frameSize ≤ r.start + r.len

instance (r : MemoryRegion) (f : Nat) : Decidable (FrameIn r f) :=
  inferInstanceAs (Decidable (_ ∧ _))

/-- Frame `f` is one that the release loop for region `r` counts; `lib.rs:140–142`. -/
def CountedIn (r : MemoryRegion) (f : Nat) : Prop :=
  r.start / frameSize ≤ f ∧ f < r.start / frameSize + r.len / frameSize

instance (r : MemoryRegion) (f : Nat) : Decidable (CountedIn r f) :=
  inferInstanceAs (Decidable (_ ∧ _))

/-- The page of frame `f` lies inside a region that is usable at handoff. -/
def UsableFrame (regions : List MemoryRegion) (f : Nat) : Prop :=
  ∃ r ∈ regions, r.kind.usableAtHandoff = true ∧ FrameIn r f

instance (regions : List MemoryRegion) (f : Nat) : Decidable (UsableFrame regions f) :=
  inferInstanceAs (Decidable (∃ r ∈ regions, _))

/-- The end of the highest region of a map; `lib.rs:124`. -/
def highest (regions : List MemoryRegion) : Nat :=
  ((regions.map MemoryRegion.endAddr).max?).getD 0

/-- How many frames the allocator built from a map manages; `lib.rs:124–136`. -/
def managedFrames (bitmap : List (BitVec 64)) (regions : List MemoryRegion) : Nat :=
  min (((regions.map MemoryRegion.endAddr).max?).getD 0 / frameSize)
    (saturatingMul bitmap.length 64)

/-- The highest end is a 64-bit value, as ends saturate. -/
theorem highest_le (regions : List MemoryRegion) : highest regions ≤ u64Max := by
  unfold highest
  cases hm : (regions.map MemoryRegion.endAddr).max? with
  | none => exact Nat.zero_le _
  | some m =>
    obtain ⟨r, -, rfl⟩ := List.mem_map.mp (List.max?_mem hm)
    exact Nat.min_le_right _ _

/-- No region of a map ends above the highest end. -/
theorem endAddr_le_highest {regions : List MemoryRegion} {r : MemoryRegion} (hr : r ∈ regions) :
    r.endAddr ≤ highest regions := by
  have hmem : r.endAddr ∈ regions.map MemoryRegion.endAddr := List.mem_map_of_mem hr
  unfold highest
  cases hm : (regions.map MemoryRegion.endAddr).max? with
  | none =>
    rw [List.max?_eq_none_iff.mp hm] at hmem
    cases hmem
  | some m => exact (List.max?_eq_some_iff.mp hm).2 _ hmem

/-- The managed frames lie below the highest end. -/
theorem managedFrames_mul_le (bitmap : List (BitVec 64)) (regions : List MemoryRegion) :
    managedFrames bitmap regions * frameSize ≤ highest regions := by
  have hle : managedFrames bitmap regions ≤ highest regions / frameSize := Nat.min_le_left _ _
  calc managedFrames bitmap regions * frameSize
      ≤ highest regions / frameSize * frameSize := Nat.mul_le_mul_right _ hle
    _ ≤ highest regions := Nat.div_mul_le_self _ _

namespace FrameAllocator

variable {a : FrameAllocator} {bitmap : List (BitVec 64)} {regions : List MemoryRegion}

/-- A bitmap that describes the frames is large enough, and the new allocator owns
nothing. -/
theorem new_spec {base frames : Nat} (hf : frames ≤ 64 * bitmap.length)
    (hb : base + frames ≤ 2 ^ 52) :
    ∃ a, new bitmap base frames = .ok a ∧ a.WF ∧ a.base = base ∧ a.frames = frames ∧
      a.freeSet = ∅ := by
  have hsize : ¬ bitmap.length < bitmapWordsFor frames := by
    simp only [bitmapWordsFor, divCeil]
    split <;> omega
  let a : FrameAllocator :=
    { bitmap := bitmap.map fun _ ↦ BitVec.allOnes 64, base := base, frames := frames,
      allocated := frames, cursor := 0 }
  have hempty : a.freeSet = ∅ := by
    apply Finset.eq_empty_of_forall_notMem
    intro f hm
    obtain ⟨⟨hl, hr⟩, hc⟩ := mem_freeSet.mp hm
    change base ≤ f at hl
    change f < base + frames at hr
    have hlen : (f - base) / 64 < bitmap.length := by omega
    have hmod : (f - base) % 64 < 64 := Nat.mod_lt _ (by decide)
    have hset : a.bit (f - base) = true := by
      simp only [bit, a, List.getD_eq_getElem?_getD, List.getElem?_map,
        List.getElem?_eq_getElem hlen, Option.map_some, Option.getD_some,
        BitVec.getLsbD_allOnes, hmod, decide_true]
    exact absurd (hset.symm.trans hc) (by simp)
  refine ⟨a, by rw [new, if_neg hsize], ⟨?_, hb, ?_, Nat.zero_le _⟩, rfl, rfl, hempty⟩
  · simp only [a, List.length_map]
    exact hf
  · rw [hempty, Finset.card_empty]
    rfl

/-- Releasing a region frees the managed frames it counts, in the whole-frame part of
the region. -/
theorem releaseRegion_spec (h : a.WF) {r : MemoryRegion}
    (hr : r.start / frameSize + r.len / frameSize ≤ u64Max) :
    ∃ a', releaseRegion r a = some (.ok (), a') ∧
      a.Becomes a' (a.freeSet ∪ a.managed.filter fun f ↦
        r.start / frameSize ≤ f ∧ f < r.start / frameSize + r.len / frameSize) := by
  refine Proc.forRange_total (fun i s ↦ a.Becomes s (a.freeSet ∪ a.managed.filter fun f ↦
    r.start / frameSize ≤ f ∧ f < r.start / frameSize + i)) ?_ ?_
  · intro i s hi hs
    obtain ⟨res, s', hrel, hs'⟩ := attempt_release hs.wf (r.start / frameSize + i)
    refine ⟨s', ?_, (hs.trans hs').congr ?_⟩
    · rw [FrameNumber.containing, addU64_of_le (by omega), Proc.run_bind_ok rfl,
        Proc.run_bind_ok hrel, Proc.run_pure]
    · rw [hs.freeSet_eq, hs.managed_eq]
      ext f
      simp only [Finset.mem_union, Finset.mem_filter]
      grind
  · apply h.becomes_self.congr
    ext f
    simp only [Finset.mem_union, Finset.mem_filter]
    grind

private theorem frameIn_iff {r : MemoryRegion} (h : r.WellFormed) (f : Nat) :
    r.start / frameSize ≤ f ∧ f < r.start / frameSize + r.len / frameSize ↔ FrameIn r f := by
  have hs := h.start_aligned
  have hl := h.len_aligned
  simp only [frameSize, FrameIn]
  omega

/-- The construction succeeds on every list of regions, whatever the bitmap, and the free
frames are the managed frames that the release loops of usable regions count. -/
theorem fromMemoryMap_total (hr : ∀ r ∈ regions, r.start ≤ u64Max ∧ r.len ≤ u64Max)
    (bitmap : List (BitVec 64)) :
    ∃ a, fromMemoryMap bitmap regions = some (.ok a) ∧ a.WF ∧ a.base = 0 ∧
      a.frames = managedFrames bitmap regions ∧
      a.freeSet = a.managed.filter fun f ↦
        ∃ r ∈ regions, r.kind.usableAtHandoff = true ∧ CountedIn r f := by
  have hcover : managedFrames bitmap regions ≤ 64 * bitmap.length := by
    simp only [managedFrames, saturatingMul]
    omega
  have hbound : 0 + managedFrames bitmap regions ≤ 2 ^ 52 := by
    have hhigh := (managedFrames_mul_le bitmap regions).trans (highest_le regions)
    simp only [frameSize, u64Max] at hhigh
    omega
  obtain ⟨a₀, hnew, hwf, hbase, hframes, hfree⟩ := new_spec hcover hbound
  let usable := regions.filter fun r ↦ r.kind.usableAtHandoff
  have hall : ∃ a, Proc.forEach usable releaseRegion a₀ = some (.ok (), a) ∧
      a₀.Becomes a (a₀.managed.filter fun f ↦ ∃ r ∈ usable, CountedIn r f) := by
    refine Proc.forEach_total (fun (done : List MemoryRegion) s ↦
      a₀.Becomes s (a₀.managed.filter fun f ↦ ∃ r ∈ done, CountedIn r f)) ?_
      (hwf.becomes_self.congr (by simp [hfree]))
    intro done r s hpre hs
    have hmem : r ∈ usable := hpre.subset (by simp)
    have hfits := hr r (List.mem_filter.mp hmem).1
    obtain ⟨s', hrel, hs'⟩ := releaseRegion_spec hs.wf (r := r) (by
      simp only [frameSize, u64Max] at hfits ⊢
      omega)
    refine ⟨s', hrel, (hs.trans hs').congr ?_⟩
    rw [hs.freeSet_eq, hs.managed_eq]
    ext f
    simp only [Finset.mem_union, Finset.mem_filter, List.mem_append, List.mem_singleton]
    grind [CountedIn]
  obtain ⟨a, hloop, hb⟩ := hall
  refine ⟨a, ?_, hb.wf, hb.base_eq.trans hbase, hb.frames_eq.trans hframes, ?_⟩
  · rw [fromMemoryMap]
    simp only [managedFrames] at hnew
    simp only [hnew]
    rw [hloop]
    rfl
  · rw [hb.freeSet_eq, hb.managed_eq]
    apply Finset.filter_congr
    intro f _
    simp only [usable, List.mem_filter, and_assoc]

/-- On a valid map the construction succeeds, whatever the bitmap, and the free frames
are the managed frames of usable regions. -/
theorem fromMemoryMap_spec (hv : ValidMemoryMap regions) (bitmap : List (BitVec 64)) :
    ∃ a, fromMemoryMap bitmap regions = some (.ok a) ∧ a.WF ∧ a.base = 0 ∧
      a.frames = managedFrames bitmap regions ∧
      a.freeSet = a.managed.filter (UsableFrame regions) := by
  have hfits : ∀ r ∈ regions, r.start ≤ u64Max ∧ r.len ≤ u64Max := by
    intro r hr
    have hrange := (hv.wellFormed r hr).in_range
    omega
  obtain ⟨a, hmap, hwf, hbase, hframes, hfree⟩ := fromMemoryMap_total hfits bitmap
  refine ⟨a, hmap, hwf, hbase, hframes, ?_⟩
  rw [hfree]
  apply Finset.filter_congr
  intro f _
  unfold UsableFrame
  constructor
  · rintro ⟨r, hr, hu, hc⟩
    exact ⟨r, hr, hu, (frameIn_iff (hv.wellFormed r hr) f).mp hc⟩
  · rintro ⟨r, hr, hu, hf⟩
    exact ⟨r, hr, hu, (frameIn_iff (hv.wellFormed r hr) f).mpr hf⟩

end FrameAllocator
end LokoOS.Memory
