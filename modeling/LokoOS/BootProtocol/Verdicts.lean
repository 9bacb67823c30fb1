import LokoOS.Base.Checks
import LokoOS.BootProtocol.MemoryMap

/-!
# The verdict of the memory-map validator

`boot/loko-boot-protocol/src/lib.rs:389–423`. Each region is judged by itself and then against
every region before it. The validator carries the end of one region only, and still answers for
all of them: it stops at the first region at fault, and tells which of the two faults it is.
-/

namespace LokoOS.BootProtocol
open LokoOS.Base

/-- How a region is at fault against the regions before it: by its own shape, which is looked
at first, or because an earlier region ends after it starts. -/
inductive RegionFault (before : List MemoryRegion) (r : MemoryRegion) : BootInfoError → Prop where
  | malformed (h : ¬ r.WellFormed) : RegionFault before r .malformedRegion
  | unsorted (h : r.WellFormed) {p : MemoryRegion} (hp : p ∈ before) (hlate : ¬ p.Before r) :
      RegionFault before r .unsortedMemoryMap

/-- Where the last of the regions seen ends; nothing seen ends at zero. -/
structure EndsAt (seen : List MemoryRegion) (previousEnd : Nat) : Prop where
  bounds : ∀ p ∈ seen, p.start + p.len ≤ previousEnd
  reached : previousEnd = 0 ∨ ∃ p ∈ seen, p.start + p.len = previousEnd

private theorem endsAt_nil : EndsAt [] 0 where
  bounds := fun p hp ↦ by cases hp
  reached := .inl rfl

variable {seen : List MemoryRegion} {region : MemoryRegion} {previousEnd : Nat}

private theorem EndsAt.concat (h : EndsAt seen previousEnd) (ho : previousEnd ≤ region.start) :
    EndsAt (seen ++ [region]) (region.start + region.len) := by
  constructor
  · intro p hp
    rw [List.mem_append, List.mem_singleton] at hp
    cases hp with
    | inl hp =>
      have := h.bounds p hp
      omega
    | inr hp => rw [hp]
  · exact .inr ⟨region, by simp, rfl⟩

private theorem EndsAt.lt_iff (h : EndsAt seen previousEnd) :
    region.start < previousEnd ↔ ∃ p ∈ seen, ¬ p.Before region := by
  unfold MemoryRegion.Before
  constructor
  · intro hlt
    cases h.reached with
    | inl hz => omega
    | inr hr =>
      obtain ⟨p, hp, he⟩ := hr
      exact ⟨p, hp, by omega⟩
  · rintro ⟨p, hp, hlate⟩
    have := h.bounds p hp
    omega

/-- A region is at fault in one way at most. -/
theorem RegionFault.unique {e e' : BootInfoError} (h : RegionFault seen region e)
    (h' : RegionFault seen region e') : e = e' := by
  cases h with
  | malformed hw =>
    cases h' with
    | malformed _ => rfl
    | unsorted hw' _ _ => exact absurd hw' hw
  | unsorted hw _ _ =>
    cases h' with
    | malformed hw' => exact absurd hw hw'
    | unsorted _ _ _ => rfl

private theorem EndsAt.not_fault_iff (h : EndsAt seen previousEnd) :
    (∀ e, ¬ RegionFault seen region e) ↔ region.WellFormed ∧ previousEnd ≤ region.start := by
  constructor
  · intro hno
    have hw : region.WellFormed := by
      by_contra hw
      exact hno _ (.malformed hw)
    constructor
    · exact hw
    · by_contra hlt
      obtain ⟨p, hp, hlate⟩ := h.lt_iff.mp (Nat.lt_of_not_le hlt)
      exact hno _ (.unsorted hw hp hlate)
  · intro hok e hf
    cases hf with
    | malformed hw => exact hw hok.1
    | unsorted hw hp hlate =>
      have := h.lt_iff.mpr ⟨_, hp, hlate⟩
      omega

private theorem EndsAt.validateRegions_fault (h : EndsAt seen previousEnd)
    {rest : List MemoryRegion}
    {anyUsable : Bool} {e : BootInfoError} (hf : RegionFault seen region e) :
    validateRegions (region :: rest) previousEnd anyUsable = .error e := by
  rw [validateRegions]
  cases hf with
  | malformed hw =>
    split
    · rfl
    · next ht => rw [if_pos (by_contra fun hn ↦ hw (region.wellFormed_iff.mpr ⟨ht, hn⟩))]
  | unsorted hw hp hlate =>
    have ht := region.wellFormed_iff.mp hw
    rw [if_neg ht.1, if_neg ht.2, if_pos (h.lt_iff.mpr ⟨_, hp, hlate⟩)]

private theorem EndsAt.validateRegions_pass (h : EndsAt seen previousEnd) {rest : List MemoryRegion}
    {anyUsable : Bool} (hno : ∀ e, ¬ RegionFault seen region e) :
    validateRegions (region :: rest) previousEnd anyUsable =
      validateRegions rest (region.start + region.len)
        (anyUsable || region.kind.usableAtHandoff) := by
  obtain ⟨hw, ho⟩ := h.not_fault_iff.mp hno
  have ht := region.wellFormed_iff.mp hw
  rw [validateRegions, if_neg ht.1, if_neg ht.2, if_neg (by omega), hw.endAddr_eq]

private theorem EndsAt.validateRegions_eq_error (h : EndsAt seen previousEnd)
    (hclean : Clean RegionFault seen) {regions : List MemoryRegion} {anyUsable : Bool}
    {e : BootInfoError} :
    validateRegions regions previousEnd anyUsable = .error e ↔
      ∃ before r after, regions = before ++ r :: after ∧
        Clean RegionFault (seen ++ before) ∧ RegionFault (seen ++ before) r e := by
  induction regions generalizing seen previousEnd anyUsable with
  | nil => simp [validateRegions]
  | cons region rest ih =>
    by_cases hf : ∃ e', RegionFault seen region e'
    · -- nothing after a region at fault is looked at
      obtain ⟨e', hf⟩ := hf
      rw [h.validateRegions_fault hf]
      constructor
      · intro he
        cases he
        exact ⟨[], region, rest, rfl, by simpa using hclean, by simpa using hf⟩
      · rintro ⟨before, r, after, heq, hc, hr⟩
        cases before with
        | nil =>
          cases heq
          rw [List.append_nil] at hr
          rw [hf.unique hr]
        | cons c before =>
          cases heq
          exact absurd hf hc.not_fault
    · have hno : ∀ e, ¬ RegionFault seen region e := fun e hf' ↦ hf ⟨e, hf'⟩
      rw [h.validateRegions_pass hno, firstFault_step hno]
      exact ih (h.concat (h.not_fault_iff.mp hno).2) (hclean.concat hno)

/-- The loop of the validator rejects exactly at the first region at fault. -/
theorem validateRegions_eq_error_iff {regions : List MemoryRegion} {e : BootInfoError} :
    validateRegions regions 0 false = .error e ↔ FirstFault RegionFault regions e := by
  simpa [FirstFault] using endsAt_nil.validateRegions_eq_error clean_nil

/-- When it rejects, the validator was given no regions, or stopped at the first region at
fault, or found none at fault and none usable. -/
theorem validateMemoryMap_eq_error_iff {regions : List MemoryRegion} {e : BootInfoError} :
    validateMemoryMap regions = .error e ↔
      (regions = [] ∧ e = .noMemoryMap) ∨ FirstFault RegionFault regions e ∨
        (regions ≠ [] ∧ (∀ r ∈ regions, r.WellFormed) ∧ regions.Pairwise MemoryRegion.Before ∧
          (∀ r ∈ regions, r.kind ≠ .usable) ∧ e = .noUsableMemory) := by
  rw [← validateRegions_eq_error_iff, validateMemoryMap]
  cases regions with
  | nil => simp [validateRegions, eq_comm]
  | cons head tail =>
    rw [if_neg (by simp)]
    cases hv : validateRegions (head :: tail) 0 false with
    | error e' =>
      have hno : ¬ ((∀ r ∈ head :: tail, r.WellFormed) ∧
          (head :: tail).Pairwise MemoryRegion.Before) := by
        rintro ⟨hw, ho⟩
        rw [validateRegions_of_ordered hw ho] at hv
        cases hv
      simp only [Except.error.injEq]
      constructor
      · intro h
        exact .inr (.inl h)
      · rintro (⟨h, -⟩ | h | ⟨-, hw, ho, -⟩)
        · cases h
        · exact h
        · exact absurd ⟨hw, ho⟩ hno
    | ok anyUsable =>
      obtain ⟨hw, -, ho, hu⟩ := validateRegions_eq_ok.mp hv
      rw [Bool.false_or] at hu
      cases anyUsable with
      | false =>
        have hnone : ∀ r ∈ head :: tail, r.kind ≠ .usable := by
          intro r hr hk
          have := List.any_eq_false.mp hu.symm r hr
          exact this (MemoryKind.usableAtHandoff_iff.mpr hk)
        constructor
        · intro h
          cases h
          exact .inr (.inr ⟨by simp, hw, ho, hnone, rfl⟩)
        · rintro (⟨h, -⟩ | h | ⟨-, -, -, -, h⟩)
          · cases h
          · cases h
          · rw [h]
            rfl
      | true =>
        obtain ⟨r, hr, hk⟩ := List.any_eq_true.mp hu.symm
        constructor
        · intro h
          cases h
        · rintro (⟨h, -⟩ | h | ⟨-, -, -, hn, -⟩)
          · cases h
          · cases h
          · exact absurd (MemoryKind.usableAtHandoff_iff.mp hk) (hn r hr)

/-- The validator decides well-formedness: it accepts exactly the non-empty maps of regions
that are well formed, pairwise in order and not all unusable, and it rejects a map with a
region at fault for the first such region. -/
theorem validateMemoryMap_decides (regions : List MemoryRegion) :
    (validateMemoryMap regions = .ok () ↔
      regions ≠ [] ∧
      (∀ r ∈ regions, 0 < r.len ∧ r.start % 4096 = 0 ∧ r.len % 4096 = 0 ∧
        r.start + r.len ≤ 2 ^ 64 - 1) ∧
      (∀ i j (hj : j < regions.length) (hij : i < j),
        regions[i].start + regions[i].len ≤ regions[j].start) ∧
      ∃ r ∈ regions, r.kind = .usable) ∧
    (∀ e, FirstFault RegionFault regions e → validateMemoryMap regions = .error e) ∧
    ∀ e, validateMemoryMap regions = .error e →
      FirstFault RegionFault regions e ∨ (regions = [] ∧ e = .noMemoryMap) ∨
        ((∀ e', ¬ FirstFault RegionFault regions e') ∧
          (∀ r ∈ regions, r.kind ≠ .usable) ∧ e = .noUsableMemory) := by
  refine ⟨?_, fun e h ↦ validateMemoryMap_eq_error_iff.mpr (.inr (.inl h)), ?_⟩
  · rw [validateMemoryMap_eq_ok_iff]
    constructor
    · intro h
      obtain ⟨r, hr, hu⟩ := h.usable
      refine ⟨List.ne_nil_of_mem hr, fun s hs ↦ ?_, fun i j hj hij ↦ ?_,
        r, hr, MemoryKind.usableAtHandoff_iff.mp hu⟩
      · have hw := h.wellFormed s hs
        exact ⟨hw.len_pos, hw.start_aligned, hw.len_aligned, hw.in_range⟩
      · exact List.pairwise_iff_getElem.mp h.ordered i j (by omega) hj hij
    · rintro ⟨-, hw, ho, r, hr, hk⟩
      constructor
      · intro s hs
        obtain ⟨hl, ha, hb, hi⟩ := hw s hs
        exact ⟨hl, ha, hb, hi⟩
      · exact List.pairwise_iff_getElem.mpr fun i j hi hj hij ↦ ho i j hj hij
      · exact ⟨r, hr, MemoryKind.usableAtHandoff_iff.mpr hk⟩
  · intro e he
    cases validateMemoryMap_eq_error_iff.mp he with
    | inl h => exact .inr (.inl h)
    | inr h =>
      cases h with
      | inl h => exact .inl h
      | inr h =>
        obtain ⟨-, hw, ho, hn, hee⟩ := h
        refine .inr (.inr ⟨fun e' hf ↦ ?_, hn, hee⟩)
        have hfault := validateRegions_eq_error_iff.mpr hf
        rw [validateRegions_of_ordered hw ho] at hfault
        cases hfault

end LokoOS.BootProtocol
