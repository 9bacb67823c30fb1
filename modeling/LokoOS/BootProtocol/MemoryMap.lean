import LokoOS.Base.Proc

/-!
# Memory regions and the memory-map validator

Crate `loko-boot-protocol`, `boot/loko-boot-protocol/src/lib.rs:59–136,289–423`.
Addresses and lengths are `u64` values as naturals. The validator's loop is a recursion
that carries the previous end and the usable flag; its acceptance condition is stated as
`ValidMemoryMap`, where order is pairwise and not only adjacent.
-/

namespace LokoOS.BootProtocol
open LokoOS.Base

/-- How the firmware described a region of physical memory; `lib.rs:62`. -/
inductive MemoryKind where
  | usable
  | reserved
  | bootloaderReclaimable
  | kernelAndModules
  | acpiReclaimable
  | acpiNvs
  | badMemory
  | framebuffer
  deriving DecidableEq, Repr

/-- Whether frames of this kind may be handed out when the kernel starts; `lib.rs:90`. -/
def MemoryKind.usableAtHandoff : MemoryKind → Bool
  | .usable => true
  | _ => false

/-- Only one kind is usable. -/
theorem MemoryKind.usableAtHandoff_iff {kind : MemoryKind} :
    kind.usableAtHandoff = true ↔ kind = .usable := by
  cases kind <;> simp [usableAtHandoff]

/-- A contiguous run of physical memory of a single kind; `lib.rs:107`. -/
structure MemoryRegion where
  start : Nat
  len : Nat
  kind : MemoryKind
  reserved : Nat := 0
  deriving DecidableEq, Repr

/-- One past the last byte of the region, saturating; `lib.rs:125`. -/
def MemoryRegion.endAddr (r : MemoryRegion) : Nat := saturatingAdd r.start r.len

/-- Why a boot description was rejected; `lib.rs:291`. -/
inductive BootInfoError where
  | badMagic
  | versionMismatch (found expected : Nat)
  | tooSmall
  | noMemoryMap
  | malformedRegion
  | unsortedMemoryMap
  | noUsableMemory
  | misalignedPhysicalOffset
  deriving DecidableEq, Repr

/-- The text shown on an early-boot screen; `lib.rs:319`. -/
def BootInfoError.message : BootInfoError → String
  | .badMagic => "LokoOS could not start: the bootloader and the system don't match."
  | .versionMismatch _ _ =>
    "LokoOS could not start: the bootloader is a different version from the system. Run Loko Recovery and choose Repair Bootloader."
  | .tooSmall =>
    "LokoOS could not start: the bootloader is older than the system. Run Loko Recovery and choose Repair Bootloader."
  | .noMemoryMap | .noUsableMemory =>
    "LokoOS could not start: this device's firmware did not report any usable memory."
  | .malformedRegion | .unsortedMemoryMap =>
    "LokoOS could not start: this device's firmware reported its memory incorrectly."
  | .misalignedPhysicalOffset =>
    "LokoOS could not start: the bootloader set up memory incorrectly."

/-- The loop of `validate_memory_map`, `lib.rs:401–417`; returns whether any region
was usable. -/
def validateRegions : List MemoryRegion → Nat → Bool → Except BootInfoError Bool
  | [], _, anyUsable => .ok anyUsable
  | region :: rest, previousEnd, anyUsable =>
    if region.len = 0 ∨ region.start % 4096 ≠ 0 ∨ region.len % 4096 ≠ 0 then
      .error .malformedRegion
    else if (addU64 region.start region.len).isNone then .error .malformedRegion
    else if region.start < previousEnd then .error .unsortedMemoryMap
    else validateRegions rest region.endAddr (anyUsable || region.kind.usableAtHandoff)

/-- The memory-map validator; `lib.rs:393`. -/
def validateMemoryMap (regions : List MemoryRegion) : Except BootInfoError Unit :=
  if regions.isEmpty then .error .noMemoryMap
  else
    match validateRegions regions 0 false with
    | .error e => .error e
    | .ok anyUsable => if !anyUsable then .error .noUsableMemory else .ok ()

/-- A region is not empty, is aligned at both ends and stays inside the address space. -/
structure MemoryRegion.WellFormed (r : MemoryRegion) : Prop where
  len_pos : 0 < r.len
  start_aligned : r.start % 4096 = 0
  len_aligned : r.len % 4096 = 0
  in_range : r.start + r.len ≤ u64Max

/-- Region `r` ends at or before region `s` starts. -/
def MemoryRegion.Before (r s : MemoryRegion) : Prop := r.start + r.len ≤ s.start

/-- What the validator promises: well-formed regions, each one before every later one,
and some usable memory. -/
structure ValidMemoryMap (regions : List MemoryRegion) : Prop where
  wellFormed : ∀ r ∈ regions, r.WellFormed
  ordered : regions.Pairwise MemoryRegion.Before
  usable : ∃ r ∈ regions, r.kind.usableAtHandoff = true

/-- Two different regions of a valid map lie one after the other. -/
theorem ValidMemoryMap.before_or_before {regions : List MemoryRegion}
    (hv : ValidMemoryMap regions) {r s : MemoryRegion} (hr : r ∈ regions) (hs : s ∈ regions)
    (hne : r ≠ s) : r.Before s ∨ s.Before r := by
  have hp := hv.ordered
  clear hv
  induction regions with
  | nil => cases hr
  | cons head rest ih =>
    rw [List.pairwise_cons] at hp
    rcases List.mem_cons.mp hr with rfl | hr'
    · rcases List.mem_cons.mp hs with rfl | hs'
      · exact absurd rfl hne
      · exact .inl (hp.1 s hs')
    · rcases List.mem_cons.mp hs with rfl | hs'
      · exact .inr (hp.1 r hr')
      · exact ih hr' hs' hp.2

/-- Below the wrap-around the saturating end is the exact end. -/
theorem MemoryRegion.WellFormed.endAddr_eq {r : MemoryRegion} (h : r.WellFormed) :
    r.endAddr = r.start + r.len := by
  have := h.in_range
  simp only [MemoryRegion.endAddr, saturatingAdd]
  omega

/-- The three tests on one region amount to well-formedness. -/
theorem MemoryRegion.wellFormed_iff (r : MemoryRegion) :
    r.WellFormed ↔
      ¬ (r.len = 0 ∨ r.start % 4096 ≠ 0 ∨ r.len % 4096 ≠ 0) ∧
        ¬ (addU64 r.start r.len).isNone = true := by
  constructor
  · rintro ⟨hl, hs, ha, hr⟩
    refine ⟨by omega, ?_⟩
    simp [addU64_of_le hr]
  · rintro ⟨ht, hr⟩
    refine ⟨by omega, by omega, by omega, ?_⟩
    by_cases hn : r.start + r.len ≤ u64Max
    · exact hn
    · simp [addU64, hn] at hr

/-- The loop succeeds exactly on ordered well-formed regions that start at or above the
carried end. -/
theorem validateRegions_eq_ok {regions : List MemoryRegion} {previousEnd : Nat}
    {anyUsable result : Bool} :
    validateRegions regions previousEnd anyUsable = .ok result ↔
      (∀ r ∈ regions, r.WellFormed) ∧ (∀ r ∈ regions, previousEnd ≤ r.start) ∧
        regions.Pairwise MemoryRegion.Before ∧
        result = (anyUsable || regions.any fun r ↦ r.kind.usableAtHandoff) := by
  induction regions generalizing previousEnd anyUsable with
  | nil => simp [validateRegions, eq_comm]
  | cons region rest ih =>
    by_cases hw : region.WellFormed
    · have ht := region.wellFormed_iff.mp hw
      rw [validateRegions, if_neg ht.1, if_neg ht.2]
      by_cases ho : region.start < previousEnd
      · rw [if_pos ho]
        constructor
        · intro h
          cases h
        · rintro ⟨-, hp, -⟩
          have := hp region (by simp)
          omega
      · rw [if_neg ho, ih, hw.endAddr_eq]
        simp only [List.mem_cons, forall_eq_or_imp, List.pairwise_cons, List.any_cons,
          Bool.or_assoc, MemoryRegion.Before]
        constructor
        · rintro ⟨ha, hp, hs, hr⟩
          refine ⟨⟨hw, ha⟩, ⟨by omega, fun r hm ↦ ?_⟩, ⟨hp, hs⟩, hr⟩
          have := hp r hm
          omega
        · rintro ⟨⟨-, ha⟩, -, ⟨hb, hs⟩, hr⟩
          exact ⟨ha, hb, hs, hr⟩
    · constructor
      · intro h
        rw [validateRegions] at h
        split at h
        · cases h
        · split at h
          · cases h
          · next h1 h2 => exact absurd (region.wellFormed_iff.mpr ⟨h1, h2⟩) hw
      · rintro ⟨ha, -⟩
        exact absurd (ha region (by simp)) hw

/-- Regions that are well formed and in order pass the checks. -/
theorem validateRegions_of_ordered {regions : List MemoryRegion}
    (hw : ∀ r ∈ regions, r.WellFormed) (ho : regions.Pairwise MemoryRegion.Before) :
    validateRegions regions 0 false =
      .ok (regions.any fun r ↦ r.kind.usableAtHandoff) :=
  validateRegions_eq_ok.mpr ⟨hw, fun _ _ ↦ Nat.zero_le _, ho, (Bool.false_or _).symm⟩

/-- The validator accepts exactly the valid maps. -/
theorem validateMemoryMap_eq_ok_iff {regions : List MemoryRegion} :
    validateMemoryMap regions = .ok () ↔ ValidMemoryMap regions := by
  rw [validateMemoryMap]
  split
  · next he =>
    rw [List.isEmpty_iff] at he
    subst he
    constructor
    · intro h
      cases h
    · rintro ⟨-, -, r, hr, -⟩
      simp at hr
  · cases hv : validateRegions regions 0 false with
    | error e =>
      constructor
      · intro h
        cases h
      · rintro ⟨hw, ho, -⟩
        rw [validateRegions_of_ordered hw ho] at hv
        cases hv
    | ok anyUsable =>
      obtain ⟨hw, -, ho, hr⟩ := validateRegions_eq_ok.mp hv
      rw [Bool.false_or] at hr
      cases anyUsable with
      | false =>
        constructor
        · intro h
          cases h
        · rintro ⟨-, -, r, hm, hu⟩
          have := List.any_eq_false.mp hr.symm r hm
          contradiction
      | true =>
        refine ⟨fun _ ↦ ⟨hw, ho, ?_⟩, fun _ ↦ rfl⟩
        obtain ⟨r, hm, hu⟩ := List.any_eq_true.mp hr.symm
        exact ⟨r, hm, hu⟩

end LokoOS.BootProtocol
