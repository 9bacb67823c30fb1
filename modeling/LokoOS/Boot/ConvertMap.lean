import Mathlib.Data.List.Induction
import LokoOS.Boot.Paging
import LokoOS.BootProtocol.MemoryMap

/-!
# Translating the firmware memory map

`boot/loko-boot/src/main.rs:403–416,510–575`. The bootloader writes one region for each
non-empty firmware descriptor into an array reserved earlier and sorts that array in
place. The firmware's descriptors are what `MemoryMap::entries` of the `uefi` crate yields.
-/

namespace LokoOS.Boot
open LokoOS.Base LokoOS.BootProtocol

/-- A firmware memory type: the named types of the UEFI specification and any other
value. -/
inductive MemoryType where
  | reserved
  | loaderCode
  | loaderData
  | bootServicesCode
  | bootServicesData
  | runtimeServicesCode
  | runtimeServicesData
  | conventional
  | unusable
  | acpiReclaim
  | acpiNonVolatile
  | mmio
  | mmioPortSpace
  | palCode
  | persistentMemory
  | unaccepted
  | other (value : Nat)
  deriving DecidableEq, Repr

/-- One entry of the firmware memory map. -/
structure MemoryDescriptor where
  ty : MemoryType
  physStart : Nat
  pageCount : Nat
  deriving DecidableEq, Repr

/-- Bytes that a descriptor describes. -/
def MemoryDescriptor.len (d : MemoryDescriptor) : Nat := d.pageCount * pageSize

/-- A descriptor describes the byte at `address`. -/
def MemoryDescriptor.Covers (d : MemoryDescriptor) (address : Nat) : Prop :=
  d.physStart ≤ address ∧ address < d.physStart + d.len

/-- Whether a firmware memory type describes installed RAM; `main.rs:403`. -/
def isInstalledRam : MemoryType → Bool
  | .conventional | .loaderCode | .loaderData | .bootServicesCode | .bootServicesData
  | .runtimeServicesCode | .runtimeServicesData | .acpiReclaim | .acpiNonVolatile
  | .persistentMemory => true
  | _ => false

/-- The boot protocol's kind for a firmware memory type; `main.rs:520–534`. -/
def translateKind : MemoryType → MemoryKind
  | .conventional => .usable
  | .loaderCode | .loaderData | .bootServicesCode | .bootServicesData => .bootloaderReclaimable
  | .acpiReclaim => .acpiReclaimable
  | .acpiNonVolatile => .acpiNvs
  | .unusable => .badMemory
  | _ => .reserved

/-- Conventional memory alone becomes usable. -/
theorem translateKind_eq_usable {ty : MemoryType} :
    translateKind ty = .usable ↔ ty = .conventional := by
  cases ty <;> simp [translateKind]

/-- The region written for a descriptor. -/
def MemoryDescriptor.toRegion (d : MemoryDescriptor) : MemoryRegion :=
  ⟨d.physStart, d.len, translateKind d.ty, 0⟩

/-- The array of regions, as the slots it has room for. -/
abbrev RegionArray : Type := List MemoryRegion

/-- Read slot `i`; outside the reserved array there is no outcome. -/
def readSlot (i : Nat) : Proc RegionArray Empty MemoryRegion := do
  let out ← Proc.get
  Proc.lift out[i]?

/-- Write slot `i`; outside the reserved array there is no outcome. -/
def writeSlot (i : Nat) (region : MemoryRegion) : Proc RegionArray Empty Unit := do
  let out ← Proc.get
  if i < out.length then Proc.modify fun out ↦ out.set i region else Proc.lift none

/-- The translation loop, `main.rs:513–548`, from a count already written. -/
def collectRegions (capacity : Nat) : List MemoryDescriptor → Nat → Proc RegionArray Empty Nat
  | [], count => pure count
  | descriptor :: rest, count =>
    if count ≥ capacity then pure count
    else do
      let len ← Proc.lift (mulU64 descriptor.pageCount pageSize)
      let region : MemoryRegion := ⟨descriptor.physStart, len, translateKind descriptor.ty, 0⟩
      if region.len = 0 then collectRegions capacity rest count
      else do
        writeSlot count region
        collectRegions capacity rest (count + 1)

/-- The inner loop of the sort, `main.rs:557–568`: shift greater regions up from slot `j`
and return the slot that became free. -/
def shiftUp (current : MemoryRegion) : Nat → Proc RegionArray Empty Nat
  | 0 => pure 0
  | j + 1 => do
    let previous ← readSlot j
    if previous.start ≤ current.start then pure (j + 1)
    else do
      writeSlot (j + 1) previous
      shiftUp current j

/-- One turn of the sort, `main.rs:554–571`. -/
def insertSlot (i : Nat) : Proc RegionArray Empty Unit := do
  let current ← readSlot i
  let j ← shiftUp current i
  writeSlot j current

/-- Translate and sort the firmware memory map; `main.rs:510`. -/
def convertMemoryMap (map : List MemoryDescriptor) (capacity : Nat) :
    Proc RegionArray Empty Nat := do
  let count ← collectRegions capacity map 0
  Proc.forRange (count - 1) fun i ↦ insertSlot (i + 1)
  pure count

/-- The regions of the non-empty descriptors, in firmware order. -/
def translated (map : List MemoryDescriptor) : List MemoryRegion :=
  (map.filter fun d ↦ d.pageCount ≠ 0).map MemoryDescriptor.toRegion

/-- Regions in ascending order of their start. -/
def SortedByStart (regions : List MemoryRegion) : Prop :=
  regions.Pairwise fun r s ↦ r.start ≤ s.start

instance (regions : List MemoryRegion) : Decidable (SortedByStart regions) :=
  inferInstanceAs (Decidable (regions.Pairwise _))

/-! ### The slots -/

private theorem readSlot_append (before : List MemoryRegion) (r : MemoryRegion)
    (after : List MemoryRegion) :
    readSlot before.length (before ++ r :: after) = some (.ok r, before ++ r :: after) := by
  rw [readSlot, Proc.run_bind_ok (Proc.run_get _)]
  simp

/-- Writing a slot of the array changes that slot only. -/
theorem writeSlot_append (before : List MemoryRegion) (r r' : MemoryRegion)
    (after : List MemoryRegion) :
    writeSlot before.length r' (before ++ r :: after) =
      some (.ok (), before ++ r' :: after) := by
  rw [writeSlot, Proc.run_bind_ok (Proc.run_get _), if_pos (by simp), Proc.run_modify]
  simp

/-- A slot inside an array splits it. -/
theorem split_at_slot {out : List MemoryRegion} {i : Nat} (hi : i < out.length) :
    ∃ r after, out = out.take i ++ r :: after :=
  ⟨out.get ⟨i, hi⟩, out.drop (i + 1), by simp⟩

/-! ### The translation loop -/

/-- With room for the non-empty descriptors, the translation loop writes their regions
after those already written and nothing else below the new count. -/
theorem collectRegions_spec {capacity count : Nat} {map : List MemoryDescriptor}
    {out : List MemoryRegion} (hlen : ∀ d ∈ map, d.len ≤ u64Max)
    (hroom : count + (translated map).length ≤ capacity) (hout : capacity ≤ out.length) :
    ∃ out', collectRegions capacity map count out =
        some (.ok (count + (translated map).length), out') ∧
      out'.length = out.length ∧
      out'.take (count + (translated map).length) = out.take count ++ translated map := by
  induction map generalizing count out with
  | nil => exact ⟨out, rfl, rfl, by simp [translated]⟩
  | cons d rest ih =>
    have hrest : ∀ e ∈ rest, e.len ≤ u64Max := fun e he ↦ hlen e (List.mem_cons_of_mem _ he)
    by_cases hz : d.pageCount = 0
    · have htrans : translated (d :: rest) = translated rest := by simp [translated, hz]
      rw [htrans] at hroom ⊢
      rw [collectRegions]
      by_cases hfull : count ≥ capacity
      · have hnone : translated rest = [] := List.eq_nil_of_length_eq_zero (by omega)
        rw [if_pos hfull, hnone]
        exact ⟨out, rfl, rfl, by simp⟩
      · have hmul : mulU64 d.pageCount pageSize = some 0 := by simp [mulU64, hz]
        rw [if_neg hfull, hmul, Proc.run_bind_ok (Proc.run_lift_some 0 out), if_pos rfl]
        exact ih hrest hroom hout
    · have htrans : translated (d :: rest) = d.toRegion :: translated rest := by
        simp [translated, hz]
      rw [htrans, List.length_cons] at hroom
      have hmul : mulU64 d.pageCount pageSize = some d.len :=
        mulU64_of_le (hlen d List.mem_cons_self)
      have hpos : d.len ≠ 0 := by
        simp only [MemoryDescriptor.len, pageSize]
        omega
      obtain ⟨r, after, hsplit⟩ := split_at_slot (show count < out.length by omega)
      have hcount : (out.take count).length = count := by
        rw [List.length_take]
        omega
      have hwrite := writeSlot_append (out.take count) r d.toRegion after
      rw [← hsplit, hcount] at hwrite
      have hlonger : capacity ≤ (out.take count ++ d.toRegion :: after).length := by
        rw [hsplit] at hout
        simpa using hout
      obtain ⟨out', hrun, hkeep, htake⟩ :=
        ih hrest (show count + 1 + (translated rest).length ≤ capacity by omega) hlonger
      refine ⟨out', ?_, ?_, ?_⟩
      · rw [collectRegions, if_neg (by omega), hmul,
          Proc.run_bind_ok (Proc.run_lift_some d.len out), if_neg hpos]
        change (writeSlot count d.toRegion >>= _) out = _
        rw [Proc.run_bind_ok hwrite, hrun, htrans, List.length_cons]
        simp only [Nat.add_assoc, Nat.add_comm 1]
      · rw [hkeep, ← congrArg List.length hsplit.symm]
        simp
      · have hhead : (out.take count ++ d.toRegion :: after).take (count + 1) =
            out.take count ++ [d.toRegion] := by
          rw [List.take_append, hcount, List.take_of_length_le (by omega)]
          simp
        rw [htrans, List.length_cons, show count + ((translated rest).length + 1) =
          count + 1 + (translated rest).length by omega, htake, hhead]
        simp

/-- A translation loop that returned wrote the regions of the first descriptors, as far as
its slots went, after those already written. -/
theorem collectRegions_ok {capacity count count' : Nat} {map : List MemoryDescriptor}
    {out out' : List MemoryRegion} (hout : capacity ≤ out.length) (hcount : count ≤ out.length)
    (h : collectRegions capacity map count out = some (.ok count', out')) :
    out'.length = out.length ∧ count' ≤ out.length ∧
      ∃ written, written <+: translated map ∧
        out'.take count' = out.take count ++ written := by
  induction map generalizing count out with
  | nil =>
    cases h
    exact ⟨rfl, hcount, [], List.nil_prefix, by simp⟩
  | cons d rest ih =>
    rw [collectRegions] at h
    split at h
    · cases h
      exact ⟨rfl, hcount, [], List.nil_prefix, by simp⟩
    · next hfull =>
      have h := (Proc.mulU64_bind_eq_ok.mp h).2
      by_cases hz : d.pageCount = 0
      · have htrans : translated (d :: rest) = translated rest := by simp [translated, hz]
        rw [if_pos (by simp [hz])] at h
        rw [htrans]
        exact ih hout hcount h
      · have htrans : translated (d :: rest) = d.toRegion :: translated rest := by
          simp [translated, hz]
        rw [if_neg (by simp only [pageSize]; omega)] at h
        obtain ⟨r, after, hsplit⟩ := split_at_slot (show count < out.length by omega)
        have htake : (out.take count).length = count := by
          rw [List.length_take]
          omega
        have hwrite := writeSlot_append (out.take count) r d.toRegion after
        rw [← hsplit, htake] at hwrite
        change (writeSlot count d.toRegion >>= _) out = _ at h
        rw [Proc.run_bind_ok hwrite] at h
        have hkeep : (out.take count ++ d.toRegion :: after).length = out.length := by
          rw [← congrArg List.length hsplit.symm]
          simp
        obtain ⟨hlen', hcount', written, hpre, hsame⟩ :=
          ih (by rw [hkeep]; exact hout) (by rw [hkeep]; omega) h
        rw [hkeep] at hlen' hcount'
        refine ⟨hlen', hcount', d.toRegion :: written, ?_, ?_⟩
        · rw [htrans]
          exact List.cons_prefix_cons.mpr ⟨rfl, hpre⟩
        · have hhead : (out.take count ++ d.toRegion :: after).take (count + 1) =
              out.take count ++ [d.toRegion] := by
            rw [List.take_append, htake, List.take_of_length_le (by omega)]
            simp
          rw [hsame, hhead]
          simp

/-! ### The sort -/

/-- Shifting from the slot after `before`: the regions of `before` greater than the
current one move up by a slot, and the slot below them becomes free. -/
theorem shiftUp_spec (current hole : MemoryRegion) (before after : List MemoryRegion)
    (hs : SortedByStart before) :
    ∃ low high hole', before = low ++ high ∧
      shiftUp current before.length (before ++ hole :: after) =
        some (.ok low.length, low ++ hole' :: (high ++ after)) ∧
      (∀ r ∈ low, r.start ≤ current.start) ∧ ∀ r ∈ high, current.start < r.start := by
  induction before using List.reverseRecOn generalizing hole after with
  | nil => exact ⟨[], [], hole, rfl, rfl, by simp, by simp⟩
  | append_singleton before previous ih =>
    rw [SortedByStart, List.pairwise_append] at hs
    obtain ⟨hbefore, -, hlast⟩ := hs
    have hread : readSlot before.length ((before ++ [previous]) ++ hole :: after) =
        some (.ok previous, (before ++ [previous]) ++ hole :: after) := by
      rw [List.append_assoc, List.singleton_append]
      exact readSlot_append before previous (hole :: after)
    rw [List.length_append, List.length_singleton, shiftUp, Proc.run_bind_ok hread]
    by_cases hle : previous.start ≤ current.start
    · rw [if_pos hle]
      refine ⟨before ++ [previous], [], hole, by simp, by simp, ?_, by simp⟩
      intro r hr
      rcases List.mem_append.mp hr with hr | hr
      · have := hlast r hr previous (by simp)
        omega
      · rw [List.mem_singleton.mp hr]
        exact hle
    · have hwrite := writeSlot_append (before ++ [previous]) hole previous after
      rw [List.length_append, List.length_singleton] at hwrite
      rw [if_neg hle, Proc.run_bind_ok hwrite, List.append_assoc, List.singleton_append]
      obtain ⟨low, high, hole', hsplit, hrun, hlow, hhigh⟩ :=
        ih previous (previous :: after) hbefore
      refine ⟨low, high ++ [previous], hole', by simp [hsplit], by simp [hrun], hlow, ?_⟩
      intro r hr
      rcases List.mem_append.mp hr with hr | hr
      · exact hhigh r hr
      · rw [List.mem_singleton.mp hr]
        omega

/-- One turn of the sort inserts the next region into the sorted ones before it. -/
theorem insertSlot_spec (current : MemoryRegion) {before : List MemoryRegion}
    (after : List MemoryRegion) (hs : SortedByStart before) :
    ∃ sorted, insertSlot before.length (before ++ current :: after) =
        some (.ok (), sorted ++ after) ∧
      sorted.Perm (before ++ [current]) ∧ SortedByStart sorted := by
  obtain ⟨low, high, hole, hsplit, hrun, hlow, hhigh⟩ :=
    shiftUp_spec current current before after hs
  refine ⟨low ++ current :: high, ?_, ?_, ?_⟩
  · rw [insertSlot, Proc.run_bind_ok (readSlot_append before current after),
      Proc.run_bind_ok hrun, writeSlot_append]
    simp
  · rw [hsplit, List.append_assoc]
    exact List.Perm.append_left low (List.perm_append_singleton current high).symm
  · rw [hsplit, SortedByStart, List.pairwise_append] at hs
    obtain ⟨hsortedLow, hsortedHigh, hcross⟩ := hs
    rw [SortedByStart, List.pairwise_append, List.pairwise_cons]
    refine ⟨hsortedLow, ⟨fun r hr ↦ Nat.le_of_lt (hhigh r hr), hsortedHigh⟩, ?_⟩
    intro r hr s hs
    rcases List.mem_cons.mp hs with rfl | hs
    · exact hlow r hr
    · exact hcross r hr s hs

/-- The sort turns the first `count` slots into a sorted permutation of themselves and
leaves the other slots alone. -/
theorem sortLoop_spec {out : List MemoryRegion} {count : Nat} (hc : count ≤ out.length) :
    ∃ out', Proc.forRange (count - 1) (fun i ↦ insertSlot (i + 1)) out = some (.ok (), out') ∧
      out'.length = out.length ∧ (out'.take count).Perm (out.take count) ∧
      SortedByStart (out'.take count) := by
  obtain ⟨out', hrun, hlen, hperm, hsorted⟩ := Proc.forRange_total
    (fun (i : Nat) (s : List MemoryRegion) ↦ s.length = out.length ∧
      (s.take count).Perm (out.take count) ∧ SortedByStart (s.take (i + 1)))
    (n := count - 1) (f := fun i ↦ insertSlot (i + 1)) (s := out)
    (by
      rintro i s hi ⟨hlen, hperm, hsorted⟩
      obtain ⟨current, after, hsplit⟩ := split_at_slot (show i + 1 < s.length by omega)
      obtain ⟨sorted, hrun, hp, hs⟩ := insertSlot_spec current after hsorted
      have htake : (s.take (i + 1)).length = i + 1 := by
        rw [List.length_take]
        omega
      have hnew : sorted.length = i + 2 := by rw [hp.length_eq]; simp [htake]
      rw [← hsplit, htake] at hrun
      have hwhole : (sorted ++ after).Perm s := by
        conv => rhs; rw [hsplit]
        have := hp.append_right after
        simpa using this
      refine ⟨sorted ++ after, hrun, hwhole.length_eq.trans hlen, ?_, ?_⟩
      · refine List.Perm.trans ?_ hperm
        have hrest : s.take count = s.take (i + 1) ++ current :: after.take (count - (i + 2)) := by
          conv => lhs; rw [hsplit]
          rw [List.take_append, htake, List.take_of_length_le (by omega),
            show count - (i + 1) = count - (i + 2) + 1 by omega, List.take_succ_cons]
        rw [hrest, List.take_append, hnew, List.take_of_length_le (by omega)]
        have := hp.append_right (after.take (count - (i + 2)))
        simpa using this
      · rw [List.take_append, hnew, List.take_of_length_le (by omega)]
        simpa using hs)
    ⟨rfl, List.Perm.refl _, by
      cases out with
      | nil => exact List.Pairwise.nil
      | cons r rest => simp [SortedByStart]⟩
  refine ⟨out', hrun, hlen, hperm, ?_⟩
  by_cases hzero : count = 0
  · simp [hzero, SortedByStart]
  · rwa [show count - 1 + 1 = count by omega] at hsorted

/-! ### The converted map -/

/-- What firmware reports: aligned ranges that stay below the end of the address space and
do not share a byte. -/
structure FirmwareMap (map : List MemoryDescriptor) : Prop where
  aligned : ∀ d ∈ map, d.physStart % pageSize = 0
  in_range : ∀ d ∈ map, d.physStart + d.len < 2 ^ 64
  disjoint : map.Pairwise fun d e ↦ ∀ address, ¬ (d.Covers address ∧ e.Covers address)

/-- A translated region comes from a non-empty descriptor. -/
theorem mem_translated {map : List MemoryDescriptor} {r : MemoryRegion} :
    r ∈ translated map ↔ ∃ d ∈ map, d.pageCount ≠ 0 ∧ d.toRegion = r := by
  simp only [translated, List.mem_map, List.mem_filter, decide_eq_true_eq]
  constructor
  · rintro ⟨d, ⟨hd, hn⟩, hr⟩
    exact ⟨d, hd, hn, hr⟩
  · rintro ⟨d, hd, hn, hr⟩
    exact ⟨d, ⟨hd, hn⟩, hr⟩

/-- With enough slots the conversion neither faults nor loses a region: the slots below
the returned count hold a sorted permutation of the translated descriptors. -/
theorem convertMemoryMap_spec {map : List MemoryDescriptor} {capacity : Nat}
    {out : List MemoryRegion} (hlen : ∀ d ∈ map, d.len ≤ u64Max)
    (hroom : (translated map).length ≤ capacity) (hout : capacity ≤ out.length) :
    ∃ out', convertMemoryMap map capacity out =
        some (.ok (translated map).length, out') ∧
      out'.length = out.length ∧
      (out'.take (translated map).length).Perm (translated map) ∧
      SortedByStart (out'.take (translated map).length) := by
  obtain ⟨out₁, hcollect, hlen₁, htake⟩ :=
    collectRegions_spec hlen (show 0 + (translated map).length ≤ capacity by omega) hout
  rw [Nat.zero_add] at hcollect htake
  rw [List.take_zero, List.nil_append] at htake
  obtain ⟨out₂, hsort, hlen₂, hperm, hsorted⟩ :=
    sortLoop_spec (show (translated map).length ≤ out₁.length by omega)
  rw [htake] at hperm
  refine ⟨out₂, ?_, hlen₂.trans hlen₁, hperm, hsorted⟩
  rw [convertMemoryMap, Proc.run_bind_ok hcollect, Proc.run_bind_ok hsort, Proc.run_pure]

/-- Every region below the returned count comes from a descriptor, whatever the map. -/
theorem convertMemoryMap_subset {map : List MemoryDescriptor} {capacity count : Nat}
    {out out' : List MemoryRegion} (hout : capacity ≤ out.length)
    (h : convertMemoryMap map capacity out = some (.ok count, out')) :
    ∀ r ∈ out'.take count, r ∈ translated map := by
  rw [convertMemoryMap] at h
  obtain ⟨count₁, out₁, hcollect, h⟩ := Proc.bind_eq_ok.mp h
  obtain ⟨_, out₂, hsort, h⟩ := Proc.bind_eq_ok.mp h
  cases h
  obtain ⟨hlen, hcount, written, hpre, htake⟩ := collectRegions_ok hout (Nat.zero_le _) hcollect
  obtain ⟨out₃, hsort₃, -, hperm, -⟩ := sortLoop_spec (show count ≤ out₁.length by omega)
  rw [hsort] at hsort₃
  cases hsort₃
  intro r hr
  have hmem := hperm.mem_iff.mp hr
  rw [htake, List.take_zero, List.nil_append] at hmem
  exact hpre.subset hmem

/-- The regions of a firmware map are well formed. -/
theorem FirmwareMap.wellFormed {map : List MemoryDescriptor} (hm : FirmwareMap map)
    {r : MemoryRegion} (hr : r ∈ translated map) : r.WellFormed := by
  obtain ⟨d, hd, hn, rfl⟩ := mem_translated.mp hr
  have ha := hm.aligned d hd
  have hb := hm.in_range d hd
  simp only [MemoryDescriptor.len, pageSize] at ha hb
  constructor <;> simp only [MemoryDescriptor.toRegion, MemoryDescriptor.len, pageSize, u64Max]
  · omega
  · exact ha
  · omega
  · omega

/-- Two regions share no byte. -/
def RegionsDisjoint (r s : MemoryRegion) : Prop :=
  ∀ address, ¬ ((r.start ≤ address ∧ address < r.start + r.len) ∧
    (s.start ≤ address ∧ address < s.start + s.len))

/-- The regions of a firmware map share no byte. -/
theorem FirmwareMap.translated_disjoint {map : List MemoryDescriptor} (hm : FirmwareMap map) :
    (translated map).Pairwise RegionsDisjoint :=
  List.pairwise_map.mpr (hm.disjoint.sublist List.filter_sublist)

/-- Sorted disjoint regions that are not empty lie one after the other. -/
theorem before_of_sorted {regions : List MemoryRegion} (hs : SortedByStart regions)
    (hd : regions.Pairwise RegionsDisjoint) (hw : ∀ r ∈ regions, r.WellFormed) :
    regions.Pairwise MemoryRegion.Before := by
  refine List.Pairwise.imp_of_mem ?_ (hs.and hd)
  rintro r s hr hs' ⟨hle, hdis⟩
  have hpos := (hw s hs').len_pos
  have := hdis s.start
  simp only [MemoryRegion.Before]
  omega

/-- A firmware descriptor covers less than 2^64 bytes. -/
theorem FirmwareMap.len_le {map : List MemoryDescriptor} (hm : FirmwareMap map) :
    ∀ d ∈ map, d.len ≤ u64Max := by
  intro d hd
  have := hm.in_range d hd
  simp only [u64Max]
  omega

/-- The kernel's validator accepts the sorted translated descriptors exactly when one of them is
conventional memory. -/
theorem FirmwareMap.validate_iff {map : List MemoryDescriptor} (hm : FirmwareMap map)
    {regions : List MemoryRegion} (hperm : regions.Perm (translated map))
    (hsorted : SortedByStart regions) :
    validateMemoryMap regions = .ok () ↔
      ∃ d ∈ map, d.pageCount ≠ 0 ∧ d.ty = .conventional := by
  have hw : ∀ r ∈ regions, r.WellFormed := fun r hr ↦ hm.wellFormed (hperm.mem_iff.mp hr)
  have hdis : regions.Pairwise RegionsDisjoint :=
    hperm.symm.pairwise hm.translated_disjoint fun h address hb ↦ h address hb.symm
  rw [validateMemoryMap_eq_ok_iff]
  constructor
  · rintro ⟨-, -, r, hr, hu⟩
    obtain ⟨d, hd, hn, rfl⟩ := mem_translated.mp (hperm.mem_iff.mp hr)
    refine ⟨d, hd, hn, ?_⟩
    rw [MemoryKind.usableAtHandoff_iff] at hu
    exact translateKind_eq_usable.mp hu
  · rintro ⟨d, hd, hn, hty⟩
    refine ⟨hw, before_of_sorted hsorted hdis hw, d.toRegion, ?_, ?_⟩
    · exact hperm.mem_iff.mpr (mem_translated.mpr ⟨d, hd, hn, rfl⟩)
    · rw [MemoryKind.usableAtHandoff_iff]
      exact translateKind_eq_usable.mpr hty

/-- The array that the bootloader writes is a sorted permutation of the translated
non-empty descriptors, and the kernel's validator accepts it exactly when one of them is
conventional memory. -/
theorem convertMemoryMap_agrees {map : List MemoryDescriptor} (hm : FirmwareMap map)
    {capacity : Nat} (hroom : (map.filter fun d ↦ d.pageCount ≠ 0).length ≤ capacity)
    {out : List MemoryRegion} (hout : capacity ≤ out.length) :
    ∃ count out', convertMemoryMap map capacity out = some (.ok count, out') ∧
      (out'.take count).Perm (translated map) ∧ SortedByStart (out'.take count) ∧
      (validateMemoryMap (out'.take count) = .ok () ↔
        ∃ d ∈ map, d.pageCount ≠ 0 ∧ d.ty = .conventional) := by
  obtain ⟨out', hrun, -, hperm, hsorted⟩ :=
    convertMemoryMap_spec hm.len_le (by rwa [translated, List.length_map]) hout
  exact ⟨_, out', hrun, hperm, hsorted, hm.validate_iff hperm hsorted⟩

/-- Three descriptors out of order, one of them empty. -/
theorem convertMemoryMap_agrees_three_descriptors :
    ∃ count out', convertMemoryMap
        [⟨.conventional, 8192, 1⟩, ⟨.mmio, 4096, 0⟩, ⟨.loaderData, 0, 1⟩] 2
        [⟨0, 0, .reserved, 0⟩, ⟨0, 0, .reserved, 0⟩] = some (.ok count, out') ∧
      (out'.take count).Perm [⟨8192, 4096, .usable, 0⟩, ⟨0, 4096, .bootloaderReclaimable, 0⟩] ∧
      SortedByStart (out'.take count) ∧
      (validateMemoryMap (out'.take count) = .ok () ↔
        ∃ d ∈ ([⟨.conventional, 8192, 1⟩, ⟨.mmio, 4096, 0⟩, ⟨.loaderData, 0, 1⟩] :
          List MemoryDescriptor), d.pageCount ≠ 0 ∧ d.ty = .conventional) :=
  convertMemoryMap_agrees
    ⟨by decide, by decide, by
      simp only [List.pairwise_cons, List.forall_mem_cons, List.Pairwise.nil,
        MemoryDescriptor.Covers, MemoryDescriptor.len, pageSize]
      grind⟩
    (by decide) (by decide)

end LokoOS.Boot
