import LokoOS.Boot.ConvertMap
import LokoOS.BootProtocol.Verdicts

/-!
# A memory map that does not fit

`boot/loko-boot/src/main.rs:510–575` with any number of descriptors. The translation stops when
the array is full, so what it keeps is the regions of the first non-empty descriptors, and the
only thing the kernel can still find wrong with them is that none is usable.
-/

namespace LokoOS.Boot
open LokoOS.Base LokoOS.BootProtocol

variable {map : List MemoryDescriptor} {capacity : Nat} {out : List MemoryRegion}

/-- The regions that an array of `capacity` slots keeps. -/
def kept (map : List MemoryDescriptor) (capacity : Nat) : List MemoryRegion :=
  (translated map).take capacity

/-- How many regions are kept. -/
theorem length_kept (map : List MemoryDescriptor) (capacity : Nat) :
    (kept map capacity).length = min capacity (translated map).length := by
  rw [kept, List.length_take]

private theorem collectRegions_count {count : Nat} (hlen : ∀ d ∈ map, d.len ≤ u64Max)
    (hcount : count ≤ capacity) (hout : capacity ≤ out.length) :
    ∃ out', collectRegions capacity map count out =
      some (.ok (min capacity (count + (translated map).length)), out') := by
  induction map generalizing count out with
  | nil => exact ⟨out, by simp [collectRegions, translated, Nat.min_eq_right hcount]⟩
  | cons d rest ih =>
    have hrest : ∀ e ∈ rest, e.len ≤ u64Max := fun e he ↦ hlen e (List.mem_cons_of_mem _ he)
    rw [collectRegions]
    by_cases hfull : count ≥ capacity
    · rw [if_pos hfull, Nat.min_eq_left (by omega), Nat.le_antisymm hcount hfull]
      exact ⟨out, rfl⟩
    · have hmul : mulU64 d.pageCount pageSize = some d.len :=
        mulU64_of_le (hlen d List.mem_cons_self)
      rw [if_neg hfull, hmul, Proc.run_bind_ok (Proc.run_lift_some d.len out)]
      by_cases hz : d.pageCount = 0
      · have htrans : translated (d :: rest) = translated rest := by simp [translated, hz]
        rw [if_pos (by simp [MemoryDescriptor.len, hz]), htrans]
        exact ih hrest hcount hout
      · have htrans : translated (d :: rest) = d.toRegion :: translated rest := by
          simp [translated, hz]
        obtain ⟨r, after, hsplit⟩ := split_at_slot (show count < out.length by omega)
        have htake : (out.take count).length = count := by
          rw [List.length_take]
          omega
        have hwrite := writeSlot_append (out.take count) r d.toRegion after
        rw [← hsplit, htake] at hwrite
        have hkeep : capacity ≤ (out.take count ++ d.toRegion :: after).length := by
          rw [hsplit] at hout
          simpa using hout
        obtain ⟨out', hrun⟩ := ih hrest (show count + 1 ≤ capacity by omega) hkeep
        refine ⟨out', ?_⟩
        rw [if_neg (by simp only [MemoryDescriptor.len, pageSize]; omega)]
        change (writeSlot count d.toRegion >>= _) out = _
        rw [Proc.run_bind_ok hwrite, hrun, htrans, List.length_cons]
        simp only [Nat.add_assoc, Nat.add_comm 1]

/-- Whatever the number of descriptors, the conversion returns and writes a sorted permutation
of the kept regions. -/
theorem convertMemoryMap_kept (hlen : ∀ d ∈ map, d.len ≤ u64Max) (hout : capacity ≤ out.length) :
    ∃ out', convertMemoryMap map capacity out = some (.ok (kept map capacity).length, out') ∧
      (out'.take (kept map capacity).length).Perm (kept map capacity) ∧
      SortedByStart (out'.take (kept map capacity).length) := by
  obtain ⟨out₁, hcollect⟩ := collectRegions_count hlen (Nat.zero_le capacity) hout
  rw [Nat.zero_add, ← length_kept] at hcollect
  obtain ⟨hlen₁, hle, written, hpre, htake⟩ := collectRegions_ok hout (Nat.zero_le _) hcollect
  rw [List.take_zero, List.nil_append] at htake
  have hwritten : written = kept map capacity := by
    have hl := congrArg List.length htake
    rw [List.length_take] at hl
    have hw : written.length = (kept map capacity).length := by omega
    rw [List.prefix_iff_eq_take.mp hpre, hw, length_kept, kept, ← List.take_eq_take_min]
  obtain ⟨out₂, hsort, -, hperm, hsorted⟩ :=
    sortLoop_spec (show (kept map capacity).length ≤ out₁.length by omega)
  rw [htake, hwritten] at hperm
  refine ⟨out₂, ?_, hperm, hsorted⟩
  rw [convertMemoryMap, Proc.run_bind_ok hcollect, Proc.run_bind_ok hsort, Proc.run_pure]

/-- What the validator says of regions that are well formed and in order. -/
theorem validateMemoryMap_of_ordered {regions : List MemoryRegion}
    (hw : ∀ r ∈ regions, r.WellFormed) (ho : regions.Pairwise MemoryRegion.Before) :
    validateMemoryMap regions =
      if regions = [] then .error .noMemoryMap
      else if ∃ r ∈ regions, r.kind = .usable then .ok () else .error .noUsableMemory := by
  by_cases hnil : regions = []
  · rw [if_pos hnil]
    exact validateMemoryMap_eq_error_iff.mpr (.inl ⟨hnil, rfl⟩)
  · rw [if_neg hnil]
    by_cases hu : ∃ r ∈ regions, r.kind = .usable
    · rw [if_pos hu]
      obtain ⟨r, hr, hk⟩ := hu
      exact validateMemoryMap_eq_ok_iff.mpr
        ⟨hw, ho, r, hr, MemoryKind.usableAtHandoff_iff.mpr hk⟩
    · rw [if_neg hu]
      exact validateMemoryMap_eq_error_iff.mpr
        (.inr (.inr ⟨hnil, hw, ho, fun r hr hk ↦ hu ⟨r, hr, hk⟩, rfl⟩))

/-- Kept regions in order of address are well formed and lie one after the other. -/
theorem kept_ordered (hm : FirmwareMap map) {regions : List MemoryRegion}
    (hperm : regions.Perm (kept map capacity)) (hsorted : SortedByStart regions) :
    (∀ r ∈ regions, r.WellFormed) ∧ regions.Pairwise MemoryRegion.Before := by
  have hsub : (kept map capacity).Sublist (translated map) := List.take_sublist _ _
  have hw : ∀ r ∈ regions, r.WellFormed :=
    fun r hr ↦ hm.wellFormed (hsub.subset (hperm.mem_iff.mp hr))
  have hdis : regions.Pairwise RegionsDisjoint :=
    hperm.symm.pairwise (hm.translated_disjoint.sublist hsub) fun h address hb ↦
      h address hb.symm
  exact ⟨hw, before_of_sorted hsorted hdis hw⟩

/-- However many descriptors the firmware reports and however few slots there are, the array
holds a sorted permutation of the regions of the first non-empty descriptors, and the kernel
refuses it only for holding no region at all or no usable one. -/
theorem convertMemoryMap_verdict (hm : FirmwareMap map) (hout : capacity ≤ out.length) :
    ∃ out', convertMemoryMap map capacity out = some (.ok (kept map capacity).length, out') ∧
      (out'.take (kept map capacity).length).Perm (kept map capacity) ∧
      SortedByStart (out'.take (kept map capacity).length) ∧
      validateMemoryMap (out'.take (kept map capacity).length) =
        if kept map capacity = [] then .error .noMemoryMap
        else if ∃ r ∈ kept map capacity, r.kind = .usable then .ok ()
        else .error .noUsableMemory := by
  obtain ⟨out', hrun, hperm, hsorted⟩ := convertMemoryMap_kept hm.len_le hout
  refine ⟨out', hrun, hperm, hsorted, ?_⟩
  obtain ⟨hw, ho⟩ := kept_ordered hm hperm hsorted
  rw [validateMemoryMap_of_ordered hw ho]
  have hnil : out'.take (kept map capacity).length = [] ↔ kept map capacity = [] := by
    rw [← List.length_eq_zero_iff, hperm.length_eq, List.length_eq_zero_iff]
  have husable : (∃ r ∈ out'.take (kept map capacity).length, r.kind = .usable) ↔
      ∃ r ∈ kept map capacity, r.kind = .usable := by
    simp only [hperm.mem_iff]
  simp only [hnil, husable]

/-- Three descriptors and one slot: the conventional memory that comes first is kept. -/
theorem convertMemoryMap_verdict_one_slot :
    ∃ out', convertMemoryMap [⟨.conventional, 8192, 1⟩, ⟨.loaderData, 0, 1⟩, ⟨.mmio, 4096, 1⟩] 1
        [⟨0, 0, .reserved, 0⟩] = some (.ok 1, out') ∧
      validateMemoryMap (out'.take 1) = .ok () := by
  have hfirmware : FirmwareMap
      [⟨.conventional, 8192, 1⟩, ⟨.loaderData, 0, 1⟩, ⟨.mmio, 4096, 1⟩] :=
    ⟨by decide, by decide, by
      simp only [List.pairwise_cons, List.forall_mem_cons, List.Pairwise.nil,
        MemoryDescriptor.Covers, MemoryDescriptor.len, pageSize]
      grind⟩
  obtain ⟨out', hrun, -, -, hverdict⟩ := convertMemoryMap_verdict hfirmware
    (show 1 ≤ [(⟨0, 0, .reserved, 0⟩ : MemoryRegion)].length by decide)
  refine ⟨out', hrun, hverdict.trans ?_⟩
  rw [if_neg (by decide), if_pos (by decide)]

end LokoOS.Boot
