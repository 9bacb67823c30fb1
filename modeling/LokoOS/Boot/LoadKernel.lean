import LokoOS.Boot.ArenaBudget
import LokoOS.Boot.Elf
import LokoOS.Boot.Walk

/-!
# Copying and mapping the kernel

`boot/loko-boot/src/main.rs:338–391`. Each segment is copied into the kernel's physical
allocation at its offset from the lowest address, its tail is cleared, and it is mapped at
its linked address with the permissions it declares. The file is read-only data.
-/

namespace LokoOS.Boot
open LokoOS.Base

/-- Store bytes from a copying loop; outside physical memory there is no outcome. -/
def storeBytes (address : Nat) (bytes : List UInt8) : Proc Memory Empty Unit := fun memory ↦
  (storePhysical memory address bytes).map fun m ↦ (.ok (), m)

/-- Copy one segment and clear its tail; `main.rs:342–355`. -/
def copySegment (image : Image) (kernelLow kernelPhysical : Nat) (segment : Segment) :
    Proc Memory Empty Unit := do
  let offset ← Proc.lift (subU64 segment.virtualAddress kernelLow)
  let destination ← Proc.lift (addU64 kernelPhysical offset)
  let source ← Proc.lift (image.segmentData segment)
  storeBytes destination source
  let tail ← Proc.lift (subU64 segment.memorySize source.length)
  if tail > 0 then storeBytes (destination + source.length) (List.replicate tail 0)
  else pure ()

/-- Copy every loadable segment; `main.rs:340`. -/
def copySegments (image : Image) (kernelLow kernelPhysical : Nat) : Proc Memory Empty Unit := do
  let segments ← Proc.lift image.segments
  Proc.forEach segments (copySegment image kernelLow kernelPhysical)

/-- The permissions a segment declares; asking for both is a build error;
`main.rs:369–378`. -/
def Segment.permissions (segment : Segment) : Except String Permissions :=
  match segment.isWritable, segment.isExecutable with
  | false, true => .ok .readExecute
  | true, false => .ok .readWrite
  | false, false => .ok .readOnly
  | true, true => .error "The LokoOS system file on this device was built incorrectly."

/-- Map one segment; `main.rs:369–388`. -/
def mapSegment (kernelLow kernelPhysical : Nat) (segment : Segment) :
    Proc PageTables String Unit := do
  let permissions ← Proc.ofExcept segment.permissions
  let offset ← Proc.lift (subU64 segment.virtualAddress kernelLow)
  let physical ← Proc.lift (addU64 kernelPhysical offset)
  Proc.mapError PagingError.message
    (PageTables.mapRange segment.virtualAddress physical segment.memorySize permissions)

/-- Map every segment at its linked address; `main.rs:362`. -/
def mapKernel (image : Image) (kernelLow kernelPhysical : Nat) : Proc PageTables String Unit := do
  let segments ← Proc.lift image.segments
  Proc.forEach segments (mapSegment kernelLow kernelPhysical)

/-! ### Copying -/

/-- The byte a segment has at offset `k` in memory. -/
def Segment.byteAt (s : Segment) (data : List UInt8) (k : Nat) : UInt8 :=
  if k < s.fileSize then data.getD (s.fileOffset + k) 0 else 0

/-- Where a segment is loaded. -/
def Segment.destination (s : Segment) (kernelLow kernelPhysical : Nat) : Nat :=
  kernelPhysical + (s.virtualAddress - kernelLow)

variable {image : Image} {kernelLow kernelPhysical : Nat} {segment : Segment}
  {segments : List Segment} {m m' : Memory}

private theorem storePhysical_eq_some {address : Nat} {bytes : List UInt8}
    (h : storePhysical m address bytes = some m') :
    m' = m.store address bytes ∧
      (bytes.length ≠ 0 → address + bytes.length ≤ physicalLimit) := by
  unfold storePhysical at h
  split at h
  · next hfit =>
    cases h
    exact ⟨rfl, by omega⟩
  · cases h

/-- A copying store that returned. -/
theorem storeBytes_ok {address : Nat} {bytes : List UInt8} {u : Unit}
    (h : storeBytes address bytes m = some (.ok u, m')) :
    m' = m.store address bytes ∧
      (bytes.length ≠ 0 → address + bytes.length ≤ physicalLimit) := by
  rw [storeBytes, Option.map_eq_some_iff] at h
  obtain ⟨m₁, hs, he⟩ := h
  cases he
  exact storePhysical_eq_some hs

/-- The bytes a segment has in memory: those of the file, then zeros. -/
def Segment.bytes (s : Segment) (data : List UInt8) : List UInt8 :=
  (data.drop s.fileOffset).take s.fileSize ++ List.replicate (s.memorySize - s.fileSize) 0

private theorem Segment.Valid.length_bytes (hv : segment.Valid image.data) :
    (segment.bytes image.data).length = segment.memorySize := by
  have hin := hv.in_file
  have hle := hv.file_le_memory
  simp only [Segment.bytes, List.length_append, List.length_take, List.length_drop,
    List.length_replicate]
  omega

private theorem Segment.Valid.get_bytes (hv : segment.Valid image.data) {k : Nat}
    (hk : k < (segment.bytes image.data).length) :
    (segment.bytes image.data).get ⟨k, hk⟩ = segment.byteAt image.data k := by
  have hin := hv.in_file
  have hlen : ((image.data.drop segment.fileOffset).take segment.fileSize).length =
      segment.fileSize := by
    rw [List.length_take, List.length_drop]
    omega
  rw [Segment.byteAt, List.get_eq_getElem]
  simp only [Segment.bytes]
  split
  · next hfile =>
    have hin' : segment.fileOffset + k < image.data.length := by omega
    rw [List.getElem_append_left (by omega)]
    simp [hin']
  · next hzero =>
    rw [List.getElem_append_right (by omega), List.getElem_replicate]

private theorem copySegment_store (hv : segment.Valid image.data)
    (h : copySegment image kernelLow kernelPhysical segment m = some (.ok (), m')) :
    kernelLow ≤ segment.virtualAddress ∧
      (segment.memorySize ≠ 0 →
        segment.destination kernelLow kernelPhysical + segment.memorySize ≤ physicalLimit) ∧
      m' = m.store (segment.destination kernelLow kernelPhysical)
        (segment.bytes image.data) := by
  rw [copySegment, Proc.subU64_bind_eq_ok, Proc.addU64_bind_eq_ok, Image.segmentData_eq hv,
    Proc.lift_bind_eq_ok] at h
  obtain ⟨hlow, -, source, hdata, h⟩ := h
  rw [Option.some.injEq] at hdata
  have hin := hv.in_file
  have hlen : source.length = segment.fileSize := by
    rw [← hdata, List.length_take, List.length_drop]
    omega
  rw [Proc.bind_eq_ok] at h
  obtain ⟨_, m₂, hstore, h⟩ := h
  obtain ⟨rfl, hfit⟩ := storeBytes_ok hstore
  obtain ⟨hle, h⟩ := Proc.subU64_bind_eq_ok.mp h
  rw [hlen] at h hfit hle
  rw [Segment.bytes, hdata, ← Memory.store_append, hlen, Segment.destination]
  split at h
  · obtain ⟨rfl, hfit'⟩ := storeBytes_ok h
    rw [List.length_replicate] at hfit'
    refine ⟨hlow, fun _ ↦ ?_, rfl⟩
    have := hfit' (by omega)
    omega
  · next hzero =>
    simp only [Proc.run_pure, Option.some.injEq, Prod.mk.injEq, true_and] at h
    refine ⟨hlow, fun _ ↦ ?_, ?_⟩
    · have := hfit (by omega)
      omega
    · have hnone : segment.memorySize - segment.fileSize = 0 := by omega
      rw [hnone, List.replicate_zero, Memory.store_nil, h]

/-- Copying a segment that returned put its bytes at its destination, inside physical
memory, and touched nothing else. -/
theorem copySegment_ok (hv : segment.Valid image.data)
    (h : copySegment image kernelLow kernelPhysical segment m = some (.ok (), m')) :
    kernelLow ≤ segment.virtualAddress ∧
      (segment.memorySize ≠ 0 →
        segment.destination kernelLow kernelPhysical + segment.memorySize ≤ physicalLimit) ∧
      (∀ k < segment.memorySize, m' (segment.destination kernelLow kernelPhysical + k) =
        segment.byteAt image.data k) ∧
      ∀ a, (a < segment.destination kernelLow kernelPhysical ∨
        segment.destination kernelLow kernelPhysical + segment.memorySize ≤ a) → m' a = m a := by
  obtain ⟨hlow, hfit, rfl⟩ := copySegment_store hv h
  refine ⟨hlow, hfit, ?_, ?_⟩
  · intro k hk
    rw [Memory.store_inside (by rwa [hv.length_bytes]), hv.get_bytes]
  · intro a ha
    exact Memory.store_outside (by rwa [hv.length_bytes])

/-- The bytes of two segments are loaded to different places. -/
def Segment.Apart (kernelLow kernelPhysical : Nat) (s s' : Segment) : Prop :=
  ∀ k < s.memorySize, ∀ k' < s'.memorySize,
    s.destination kernelLow kernelPhysical + k ≠ s'.destination kernelLow kernelPhysical + k'

/-- Copying segments that returned stayed inside physical memory, touched nothing outside
their destinations, and, where these are apart, left every segment's bytes in place. -/
theorem copyAll_ok (hv : ∀ s ∈ segments, s.Valid image.data)
    (h : Proc.forEach segments (copySegment image kernelLow kernelPhysical) m =
      some (.ok (), m')) :
    (∀ s ∈ segments, kernelLow ≤ s.virtualAddress ∧ (s.memorySize ≠ 0 →
      s.destination kernelLow kernelPhysical + s.memorySize ≤ physicalLimit)) ∧
    (∀ a, (∀ s ∈ segments, a < s.destination kernelLow kernelPhysical ∨
      s.destination kernelLow kernelPhysical + s.memorySize ≤ a) → m' a = m a) ∧
    (segments.Pairwise (Segment.Apart kernelLow kernelPhysical) →
      ∀ s ∈ segments, ∀ k < s.memorySize,
        m' (s.destination kernelLow kernelPhysical + k) = s.byteAt image.data k) := by
  induction segments generalizing m with
  | nil =>
    simp only [Proc.forEach, Proc.run_pure, Option.some.injEq, Prod.mk.injEq, true_and] at h
    subst h
    exact ⟨by simp, fun _ _ ↦ rfl, by simp⟩
  | cons segment rest ih =>
    rw [Proc.forEach, Proc.bind_eq_ok] at h
    obtain ⟨_, m₁, hcopy, hrest⟩ := h
    obtain ⟨hlow, hfit, hbytes, hframe⟩ := copySegment_ok (hv segment List.mem_cons_self) hcopy
    obtain ⟨hbounds, hframes, hall⟩ := ih (fun s hs ↦ hv s (List.mem_cons_of_mem _ hs)) hrest
    refine ⟨?_, ?_, ?_⟩
    · intro s hs
      rcases List.mem_cons.mp hs with rfl | hs
      · exact ⟨hlow, hfit⟩
      · exact hbounds s hs
    · intro a ha
      rw [hframes a fun s hs ↦ ha s (List.mem_cons_of_mem _ hs),
        hframe a (ha segment List.mem_cons_self)]
    · intro hapart s hs k hk
      rw [List.pairwise_cons] at hapart
      rcases List.mem_cons.mp hs with rfl | hs
      · -- no later segment overwrites this byte
        rw [hframes _ fun s' hs' ↦ ?_, hbytes k hk]
        by_cases hc : s.destination kernelLow kernelPhysical + k <
            s'.destination kernelLow kernelPhysical
        · exact .inl hc
        · right
          have := hapart.1 s' hs' k hk (s.destination kernelLow kernelPhysical + k -
            s'.destination kernelLow kernelPhysical)
          omega
      · exact hall hapart.2 s hs k hk

/-- A copying store inside physical memory. -/
theorem storeBytes_of_fit {address : Nat} {bytes : List UInt8}
    (h : address + bytes.length ≤ physicalLimit) :
    storeBytes address bytes m = some (.ok (), m.store address bytes) := by
  rw [storeBytes, storePhysical, if_pos (.inr h), Option.map_some]

/-- A valid segment whose destination lies inside physical memory is copied. -/
theorem copySegment_total (hv : segment.Valid image.data)
    (hlow : kernelLow ≤ segment.virtualAddress)
    (hfit : segment.destination kernelLow kernelPhysical + segment.memorySize ≤ physicalLimit)
    (m : Memory) :
    ∃ m', copySegment image kernelLow kernelPhysical segment m = some (.ok (), m') := by
  have hle := hv.file_le_memory
  have hsub : subU64 segment.virtualAddress kernelLow =
      some (segment.virtualAddress - kernelLow) := subU64_of_le hlow
  have hadd : addU64 kernelPhysical (segment.virtualAddress - kernelLow) =
      some (segment.destination kernelLow kernelPhysical) := by
    simp only [physicalLimit, Segment.destination] at hfit ⊢
    exact addU64_of_le (by rw [u64Max]; omega)
  have hlen : ((image.data.drop segment.fileOffset).take segment.fileSize).length =
      segment.fileSize := by
    have := hv.in_file
    rw [List.length_take, List.length_drop]
    omega
  rw [copySegment, hsub, Proc.run_bind_ok (Proc.run_lift_some _ _), hadd,
    Proc.run_bind_ok (Proc.run_lift_some _ _), Image.segmentData_eq hv,
    Proc.run_bind_ok (Proc.run_lift_some _ _),
    Proc.run_bind_ok (storeBytes_of_fit (by omega)), hlen, subU64_of_le hle,
    Proc.run_bind_ok (Proc.run_lift_some _ _)]
  split
  · exact ⟨_, storeBytes_of_fit (by rw [List.length_replicate]; omega)⟩
  · exact ⟨_, Proc.run_pure _ _⟩

/-- Valid segments whose destinations lie inside physical memory are copied. -/
theorem copySegments_total (hsegs : image.segments = some segments)
    (hv : ∀ s ∈ segments, s.Valid image.data)
    (hlow : ∀ s ∈ segments, kernelLow ≤ s.virtualAddress)
    (hfit : ∀ s ∈ segments,
      s.destination kernelLow kernelPhysical + s.memorySize ≤ physicalLimit) (m : Memory) :
    ∃ m', copySegments image kernelLow kernelPhysical m = some (.ok (), m') := by
  obtain ⟨m', hrun, -⟩ := Proc.forEach_total (fun (_ : List Segment) (_ : Memory) ↦ True)
    (f := copySegment image kernelLow kernelPhysical) (s := m) (by
      intro done s m₁ hpre _
      have hmem : s ∈ segments := hpre.subset (by simp)
      obtain ⟨m₂, hrun⟩ := copySegment_total (hv s hmem) (hlow s hmem) (hfit s hmem) m₁
      exact ⟨m₂, hrun, trivial⟩) trivial
  exact ⟨m', by rw [copySegments, hsegs, Proc.run_bind_ok (Proc.run_lift_some _ _)]; exact hrun⟩

/-! ### Mapping -/

/-- How many pages a segment needs. -/
def Segment.pages (s : Segment) : Nat := divCeil s.memorySize pageSize

/-- The virtual address of a segment's page `i`. -/
def Segment.pageAddress (s : Segment) (i : Nat) : Nat := s.virtualAddress + i * pageSize

/-- Two segments share no virtual page. -/
def Segment.PagesApart (s s' : Segment) : Prop :=
  ∀ i < s.pages, ∀ i' < s'.pages,
    pageNumber (s.pageAddress i) ≠ pageNumber (s'.pageAddress i')

/-- Map `p'` is `p` with the pages of the segments added, which were unmapped in `p` and
are shared by no two of them. -/
structure KernelAdded (kernelLow kernelPhysical : Nat) (segments : List Segment)
    (p p' : PageMap) : Prop where
  inside : ∀ s ∈ segments, ∀ i < s.pages, ∃ permissions, s.permissions = .ok permissions ∧
    p'.page (pageNumber (s.pageAddress i)) =
      some ⟨s.destination kernelLow kernelPhysical + i * pageSize, permissions⟩
  outside : ∀ v, (∀ s ∈ segments, ∀ i < s.pages, v ≠ pageNumber (s.pageAddress i)) →
    p'.page v = p.page v
  huge_eq : p'.huge = p.huge
  tabled_iff : ∀ h, p'.tabled h = true ↔
    p.tabled h = true ∨ ∃ s ∈ segments, ∃ i < s.pages, h = hugeNumber (s.pageAddress i)
  apart : segments.Pairwise Segment.PagesApart
  placed : ∀ s ∈ segments, kernelLow ≤ s.virtualAddress ∧
    ∀ i < s.pages, s.pageAddress i ≤ u64Max ∧ s.virtualAddress % pageSize = 0 ∧
      s.destination kernelLow kernelPhysical % pageSize = 0

private theorem KernelAdded.nil {p : PageMap} : KernelAdded kernelLow kernelPhysical [] p p :=
  ⟨by simp, fun _ _ ↦ rfl, rfl, by simp, .nil, by simp⟩

private theorem KernelAdded.concat {p p' p'' : PageMap} {permissions : Permissions}
    (h : KernelAdded kernelLow kernelPhysical segments p p')
    (hp : segment.permissions = .ok permissions) (hlow : kernelLow ≤ segment.virtualAddress)
    (ha : PagesAdded p' p'' segment.virtualAddress
      (segment.destination kernelLow kernelPhysical) segment.pages permissions)
    (hplace : ∀ i < segment.pages, segment.virtualAddress + i * pageSize ≤ u64Max ∧
      segment.virtualAddress % pageSize = 0 ∧
      segment.destination kernelLow kernelPhysical % pageSize = 0) :
    KernelAdded kernelLow kernelPhysical (segments ++ [segment]) p p'' := by
  -- the new segment's pages were unmapped, those of the earlier ones were not
  have hnew : ∀ s ∈ segments, s.PagesApart segment := by
    intro s hs i hi i' hi' he
    obtain ⟨permissions', -, hmapped⟩ := h.inside s hs i hi
    have hnone := ha.page_none i' hi'
    rw [show segment.virtualAddress + i' * pageSize = segment.pageAddress i' from rfl, ← he,
      hmapped] at hnone
    cases hnone
  refine ⟨?_, ?_, ha.huge_eq.trans h.huge_eq, ?_, ?_, ?_⟩
  · intro s hs i hi
    rcases List.mem_append.mp hs with hs | hs
    · obtain ⟨permissions', hp', hmapped⟩ := h.inside s hs i hi
      refine ⟨permissions', hp', ?_⟩
      rw [ha.outside _ fun i' hi' ↦ hnew s hs i hi i' hi', hmapped]
    · rw [List.mem_singleton] at hs
      subst hs
      exact ⟨permissions, hp, ha.inside i hi⟩
  · intro v hv
    rw [ha.outside v fun i hi ↦ hv segment (by simp) i hi]
    exact h.outside v fun s hs ↦ hv s (List.mem_append_left _ hs)
  · intro s
    rw [ha.tabled_iff, h.tabled_iff]
    simp only [List.mem_append, List.mem_singleton]
    constructor
    · rintro ((ht | ⟨s', hs', i, hi, he⟩) | ⟨i, hi, he⟩)
      · exact .inl ht
      · exact .inr ⟨s', .inl hs', i, hi, he⟩
      · exact .inr ⟨segment, .inr rfl, i, hi, he⟩
    · rintro (ht | ⟨s', hs' | rfl, i, hi, he⟩)
      · exact .inl (.inl ht)
      · exact .inl (.inr ⟨s', hs', i, hi, he⟩)
      · exact .inr ⟨i, hi, he⟩
  · rw [List.pairwise_append]
    refine ⟨h.apart, List.pairwise_singleton _ _, ?_⟩
    intro s hs s' hs'
    rw [List.mem_singleton.mp hs']
    exact hnew s hs
  · intro s hs
    rcases List.mem_append.mp hs with hs | hs
    · exact h.placed s hs
    · rw [List.mem_singleton] at hs
      subst hs
      exact ⟨hlow, hplace⟩

/-- Mapping a segment that returned added its pages to those of the segments before it. -/
theorem mapSegment_ok {t t' : PageTables} (h : t.WF)
    (hb : ∀ i < segment.pages,
      segment.destination kernelLow kernelPhysical + i * pageSize < 2 ^ 52)
    {p : PageMap} (hadded : KernelAdded kernelLow kernelPhysical segments p t.view)
    (hrun : mapSegment kernelLow kernelPhysical segment t = some (.ok (), t')) :
    t.Keeps t' ∧ KernelAdded kernelLow kernelPhysical (segments ++ [segment]) p t'.view := by
  rw [mapSegment, Proc.bind_eq_ok] at hrun
  obtain ⟨permissions, t₁, hp, hrun⟩ := hrun
  obtain ⟨hperm, rfl⟩ := Proc.ofExcept_eq_ok.mp hp
  rw [Proc.subU64_bind_eq_ok, Proc.addU64_bind_eq_ok, Proc.mapError_eq_ok] at hrun
  obtain ⟨hlow, -, hrun⟩ := hrun
  obtain ⟨hk, hpages, hplace⟩ := PageTables.mapRange_ok h hb hrun
  exact ⟨hk, hadded.concat hperm hlow hpages hplace⟩

/-- Mapping segments that returned added their pages, if these lie in physical memory. -/
theorem mapAll_ok {t t' : PageTables} (h : t.WF)
    (hb : ∀ s ∈ segments, ∀ i < s.pages,
      s.destination kernelLow kernelPhysical + i * pageSize < 2 ^ 52)
    (hrun : Proc.forEach segments (mapSegment kernelLow kernelPhysical) t =
      some (.ok (), t')) :
    t.Keeps t' ∧ KernelAdded kernelLow kernelPhysical segments t.view t'.view := by
  refine Proc.forEach_ok_invariant (fun (done : List Segment) (s : PageTables) ↦ t.Keeps s ∧
    KernelAdded kernelLow kernelPhysical done t.view s.view) ?_ ⟨h.keeps_self, .nil⟩ hrun
  rintro done segment s s' hpre ⟨hk, hadded⟩ hrun
  obtain ⟨hk', hadded'⟩ := mapSegment_ok hk.wf (hb segment (hpre.subset (by simp))) hadded hrun
  exact ⟨hk.trans hk', hadded'⟩

/-- A segment that alone can be mapped: aligned, within one 2 MiB page, placed below the
physical limit, with permissions that can be honoured. -/
structure Segment.Small (s : Segment) (kernelLow kernelPhysical : Nat) : Prop where
  low : kernelLow ≤ s.virtualAddress
  aligned : s.virtualAddress % pageSize = 0
  placed : s.destination kernelLow kernelPhysical % pageSize = 0
  one_slot : s.virtualAddress % hugePageSize + s.pages * pageSize ≤ hugePageSize
  in_range : s.virtualAddress + s.pages * pageSize ≤ 2 ^ 64
  physical : s.destination kernelLow kernelPhysical + s.pages * pageSize ≤ 2 ^ 52
  permitted : ∃ permissions, s.permissions = .ok permissions

/-- The pages of such a segment start below the physical limit. -/
theorem Segment.Small.physical_lt (hs : segment.Small kernelLow kernelPhysical) {i : Nat}
    (hi : i < segment.pages) :
    segment.destination kernelLow kernelPhysical + i * pageSize < 2 ^ 52 := by
  have hle : i * pageSize + pageSize ≤ segment.pages * pageSize := item_end_le hi
  have hb := hs.physical
  have hpos : 0 < pageSize := by decide
  omega

/-- Such a segment is mapped where its pages are not, with at most three frames. -/
theorem mapSegment_total {t : PageTables} (h : t.WF)
    (hs : segment.Small kernelLow kernelPhysical)
    (hh : t.view.huge (hugeNumber segment.virtualAddress) = none)
    (hpages : ∀ i < segment.pages, t.view.page (pageNumber (segment.pageAddress i)) = none)
    (hroom : t.nextFrame + 3 ≤ t.arenaFrames) :
    ∃ t', mapSegment kernelLow kernelPhysical segment t = some (.ok (), t') ∧
      t'.nextFrame ≤ t.nextFrame + 3 := by
  obtain ⟨permissions, hp⟩ := hs.permitted
  obtain ⟨t', hrun, hnext⟩ : ∃ t', PageTables.mapRange segment.virtualAddress
      (segment.destination kernelLow kernelPhysical) segment.memorySize permissions t =
        some (.ok (), t') ∧ t'.nextFrame ≤ t.nextFrame + 3 :=
    PageTables.mapRange_total h hs.aligned hs.placed hs.one_slot hs.in_range hs.physical hh
      hpages hroom
  refine ⟨t', ?_, hnext⟩
  have hsub : subU64 segment.virtualAddress kernelLow =
      some (segment.virtualAddress - kernelLow) := subU64_of_le hs.low
  have hadd : addU64 kernelPhysical (segment.virtualAddress - kernelLow) =
      some (segment.destination kernelLow kernelPhysical) := by
    have := hs.physical
    exact addU64_of_le (by simp only [Segment.destination, u64Max] at *; omega)
  rw [mapSegment, hp, Proc.run_bind_ok (Proc.ofExcept_eq_ok.mpr ⟨rfl, rfl⟩), hsub,
    Proc.run_bind_ok (Proc.run_lift_some _ _), hadd,
    Proc.run_bind_ok (Proc.run_lift_some _ _)]
  exact Proc.mapError_eq_ok.mpr hrun

/-- A kernel of such segments that share no page is mapped on fresh tables, with at most three
frames for each. -/
theorem mapKernel_total {t : PageTables} (h : t.WF) (hempty : t.view = .empty)
    (hsegs : image.segments = some segments)
    (hs : ∀ s ∈ segments, s.Small kernelLow kernelPhysical)
    (hapart : segments.Pairwise Segment.PagesApart)
    (hroom : t.nextFrame + 3 * segments.length ≤ t.arenaFrames) :
    ∃ t', mapKernel image kernelLow kernelPhysical t = some (.ok (), t') ∧
      t'.nextFrame ≤ t.nextFrame + 3 * segments.length := by
  obtain ⟨t', hrun, -, -, hnext⟩ := Proc.forEach_total
    (f := mapSegment kernelLow kernelPhysical) (s := t)
    (fun (done : List Segment) (s : PageTables) ↦ t.Keeps s ∧
      KernelAdded kernelLow kernelPhysical done .empty s.view ∧
      s.nextFrame ≤ t.nextFrame + 3 * done.length) (by
    rintro done segment s hpre ⟨hk, hadded, hnext⟩
    have hsmall := hs segment (hpre.subset (by simp))
    have hlen := hpre.length_le
    rw [List.length_append, List.length_singleton] at hlen
    -- the pages mapped so far are those of the segments before
    have hnew : ∀ i < segment.pages,
        s.view.page (pageNumber (segment.pageAddress i)) = none := by
      intro i hi
      rw [hadded.outside _ fun s' hs' j hj he ↦ ?_]
      · rfl
      · have hapart' := (List.pairwise_append.mp (hapart.sublist hpre.sublist)).2.2 s' hs'
          segment (List.mem_singleton_self _)
        exact hapart' j hj i hi he.symm
    obtain ⟨s₁, hrun, hnext₁⟩ := mapSegment_total hk.wf hsmall (by rw [hadded.huge_eq]; rfl)
      hnew (by rw [hk.frames_eq]; omega)
    obtain ⟨hk₁, hadded₁⟩ := mapSegment_ok hk.wf (fun i hi ↦ hsmall.physical_lt hi) hadded hrun
    refine ⟨s₁, hrun, hk.trans hk₁, hadded₁, ?_⟩
    rw [List.length_append, List.length_singleton]
    omega) ⟨h.keeps_self, hempty ▸ .nil, Nat.le_refl _⟩
  refine ⟨t', ?_, hnext⟩
  rw [mapKernel, hsegs, Proc.run_bind_ok (Proc.run_lift_some _ _), hrun]

/-! ### Loading -/

/-- The kernel's physical allocation, sized from the extent of the image. -/
def Allocated (low high kernelPhysical address : Nat) : Prop :=
  kernelPhysical ≤ address ∧ address < kernelPhysical + divCeil (high - low) pageSize * pageSize

/-- Segments inside the extent are copied into the pages allocated for it. -/
theorem destination_in_pages {s : Segment} {low high : Nat} (kernelPhysical : Nat)
    (hlow : low ≤ s.virtualAddress) (hhigh : s.virtualAddress + s.memorySize ≤ high) :
    kernelPhysical ≤ s.destination low kernelPhysical ∧
      s.destination low kernelPhysical + s.memorySize ≤
        kernelPhysical + divCeil (high - low) pageSize * pageSize := by
  have hpages := le_divCeil_mul (high - low) (show 0 < pageSize by decide)
  unfold Segment.destination
  omega

private theorem KernelAdded.page_of_byte {p p' : PageMap}
    (h : KernelAdded kernelLow kernelPhysical segments p p') (hs : segment ∈ segments) {k : Nat}
    (hk : k < segment.memorySize) :
    k / pageSize < segment.pages ∧
      pageNumber (segment.virtualAddress + k) =
        pageNumber (segment.pageAddress (k / pageSize)) ∧
      segment.virtualAddress % pageSize = 0 ∧
      segment.destination kernelLow kernelPhysical % pageSize = 0 := by
  have hi : k / pageSize < segment.pages := div_lt_divCeil hk (by decide)
  obtain ⟨-, hva, hdest⟩ := (h.placed segment hs).2 _ hi
  refine ⟨hi, ?_, hva, hdest⟩
  simp only [pageNumber, Segment.pageAddress, pageSize] at hva ⊢
  omega

private theorem KernelAdded.apart_pages {p p' : PageMap}
    (h : KernelAdded kernelLow kernelPhysical segments p p') :
    segments.Pairwise fun s s' ↦ ∀ k < s.memorySize, ∀ k' < s'.memorySize,
      pageNumber (s.virtualAddress + k) ≠ pageNumber (s'.virtualAddress + k') := by
  apply h.apart.imp_of_mem
  intro s s' hs hs' hapart k hk k' hk'
  obtain ⟨hi, hpage, -⟩ := h.page_of_byte hs hk
  obtain ⟨hi', hpage', -⟩ := h.page_of_byte hs' hk'
  rw [hpage, hpage']
  exact hapart _ hi _ hi'

private theorem KernelAdded.apart_destinations {p p' : PageMap}
    (h : KernelAdded kernelLow kernelPhysical segments p p') :
    segments.Pairwise (Segment.Apart kernelLow kernelPhysical) := by
  apply h.apart_pages.imp_of_mem
  intro s s' hs hs' hapart k hk k' hk' he
  have hlow := (h.placed s hs).1
  have hlow' := (h.placed s' hs').1
  apply hapart k hk k' hk'
  simp only [Segment.destination] at he
  rw [show s.virtualAddress + k = s'.virtualAddress + k' by omega]

/-- Byte `k` of a segment is translated to its destination. -/
theorem KernelAdded.translate {p p' : PageMap}
    (h : KernelAdded kernelLow kernelPhysical segments p p') (hs : segment ∈ segments) {k : Nat}
    (hk : k < segment.memorySize) (hc : Canonical (segment.virtualAddress + k)) :
    ∃ permissions, segment.permissions = .ok permissions ∧
      p'.translate (segment.virtualAddress + k) =
        some ⟨segment.destination kernelLow kernelPhysical + k, permissions⟩ := by
  obtain ⟨hi, hpage, hva, hdest⟩ := h.page_of_byte hs hk
  obtain ⟨permissions, hp, hmapped⟩ := h.inside segment hs _ hi
  refine ⟨permissions, hp, ?_⟩
  rw [PageMap.translate, if_neg (not_not_intro hc), hpage, hmapped]
  simp only [Option.some.injEq, Translation.mk.injEq, and_true, pageSize] at hva ⊢
  omega

/-- A map with the same 4 KiB pages translates the bytes of a segment the same. -/
theorem KernelAdded.translate_of_page_eq {p p' q : PageMap}
    (h : KernelAdded kernelLow kernelPhysical segments p p') (hpage : q.page = p'.page)
    (hs : segment ∈ segments) {k : Nat} (hk : k < segment.memorySize) :
    q.translate (segment.virtualAddress + k) = p'.translate (segment.virtualAddress + k) := by
  obtain ⟨hi, hnumber, -⟩ := h.page_of_byte hs hk
  obtain ⟨permissions, -, hmapped⟩ := h.inside segment hs _ hi
  rw [PageMap.translate, PageMap.translate, hpage, hnumber, hmapped]

private theorem KernelAdded.segment_of_page {p p' : PageMap}
    (h : KernelAdded kernelLow kernelPhysical segments p p') {v : Nat}
    (hv : p'.page v ≠ p.page v) :
    ∃ s ∈ segments, ∃ i < s.pages, v = pageNumber (s.pageAddress i) := by
  refine Classical.byContradiction fun hno ↦ hv (h.outside v fun s hs i hi he ↦ ?_)
  exact hno ⟨s, hs, i, hi, he⟩

/-- Where only the kernel was added to the empty map, a mapped page is a page of a segment,
with its frame and permissions. -/
theorem KernelAdded.page_eq_some {p : PageMap} {v : Nat} {leaf : Leaf}
    (h : KernelAdded kernelLow kernelPhysical segments .empty p) (hv : p.page v = some leaf) :
    ∃ s ∈ segments, ∃ i < s.pages, v = pageNumber (s.pageAddress i) ∧
      s.permissions = .ok leaf.permissions ∧
      leaf.frame = s.destination kernelLow kernelPhysical + i * pageSize := by
  obtain ⟨s, hs, i, hi, rfl⟩ := h.segment_of_page (v := v) (by rw [hv]; simp [PageMap.empty])
  obtain ⟨permissions, hperm, hmapped⟩ := h.inside s hs i hi
  rw [hv] at hmapped
  cases hmapped
  exact ⟨s, hs, i, hi, rfl, hperm, rfl⟩

private theorem allocated_of_page {low high i : Nat} (hka : kernelPhysical % pageSize = 0)
    (hlow : low ≤ segment.virtualAddress)
    (hhigh : segment.virtualAddress + segment.memorySize ≤ high)
    (hdest : segment.destination low kernelPhysical % pageSize = 0) (hi : i < segment.pages)
    {a : Nat} (ha : segment.destination low kernelPhysical + i * pageSize ≤ a)
    (hb : a < segment.destination low kernelPhysical + i * pageSize + pageSize) :
    Allocated low high kernelPhysical a := by
  have hbyte := mul_lt_of_lt_divCeil hi
  have hspan := le_divCeil_mul (high - low) (show 0 < pageSize by decide)
  simp only [Segment.destination, Allocated, pageSize] at *
  omega

private theorem KernelAdded.allocated_of_translate {p' : PageMap} {low high : Nat}
    (h : KernelAdded low kernelPhysical segments .empty p') (hka : kernelPhysical % pageSize = 0)
    (hspan : ∀ s ∈ segments, s.memorySize ≠ 0 →
      low ≤ s.virtualAddress ∧ s.virtualAddress + s.memorySize ≤ high)
    {va address a : Nat} {permissions : Permissions}
    (htranslate : p'.translate va = some ⟨address, permissions⟩)
    (ha : a / pageSize = address / pageSize) : Allocated low high kernelPhysical a := by
  rw [PageMap.translate, h.huge_eq] at htranslate
  split at htranslate
  · cases htranslate
  · split at htranslate
    · next leaf hpage =>
      obtain ⟨s, hs, i, hi, -, -, hframe⟩ := h.page_eq_some hpage
      simp only [Option.some.injEq, Translation.mk.injEq] at htranslate
      have hdest := ((h.placed s hs).2 i hi).2.2
      have hne : s.memorySize ≠ 0 := by
        have := mul_lt_of_lt_divCeil hi
        omega
      obtain ⟨hlow, hhigh⟩ := hspan s hs hne
      refine allocated_of_page hka hlow hhigh hdest hi ?_ ?_ <;>
        simp only [pageSize] at * <;> omega
    · simp [PageMap.empty] at htranslate

/-- Loading an accepted image is faithful. When the extent is known and copying and mapping
on fresh tables return, every byte of every segment reads back through the tables as the
file's byte or zero; every byte written and every page mapped lies in the allocation; and
no page is shared by two segments. -/
theorem load_faithful {data : List UInt8} (hparse : Image.parse data () = some (.ok image, ()))
    (hsegs : image.segments = some segments)
    (hcanonical : ∀ s ∈ segments, ∀ k < s.memorySize, Canonical (s.virtualAddress + k))
    {low high : Nat} (hextent : image.virtualExtent = some (low, high))
    (hka : kernelPhysical % pageSize = 0) {arenaBase arenaFrames : Nat}
    (hdisjoint : ∀ a, Allocated low high kernelPhysical a →
      ¬ (arenaBase ≤ a ∧ a < arenaBase + arenaFrames * pageSize))
    (hcopy : copySegments image low kernelPhysical m = some (.ok (), m')) {t t' : PageTables}
    (hnew : PageTables.new m' arenaBase arenaFrames = some (.ok t))
    (hmap : mapKernel image low kernelPhysical t = some (.ok (), t')) :
    (∀ s ∈ segments, ∀ k < s.memorySize,
      ∃ address permissions, walk t'.memory t'.cr3Value (s.virtualAddress + k) =
        some ⟨address, permissions⟩ ∧
        t'.memory address = if k < s.fileSize then data.getD (s.fileOffset + k) 0 else 0) ∧
    ((∀ s ∈ segments, ∀ k < s.memorySize,
        Allocated low high kernelPhysical (s.destination low kernelPhysical + k)) ∧
      ∀ a, (∀ s ∈ segments, ∀ k < s.memorySize, a ≠ s.destination low kernelPhysical + k) →
        m' a = m a) ∧
    (∀ va address permissions,
      walk t'.memory t'.cr3Value va = some ⟨address, permissions⟩ →
        ∀ a, a / pageSize = address / pageSize → Allocated low high kernelPhysical a) ∧
    segments.Pairwise fun s s' ↦ ∀ k < s.memorySize, ∀ k' < s'.memorySize,
      (s.virtualAddress + k) / pageSize ≠ (s'.virtualAddress + k') / pageSize := by
  obtain ⟨rfl, segments', hsegs', -, hvalid⟩ := Image.parse_eq_ok hparse
  rw [hsegs] at hsegs'
  cases hsegs'
  rw [copySegments, hsegs, Proc.run_bind_ok (Proc.run_lift_some _ _)] at hcopy
  obtain ⟨hplaced, hframe, hbytes⟩ := copyAll_ok hvalid hcopy
  rw [mapKernel, hsegs, Proc.run_bind_ok (Proc.run_lift_some _ _)] at hmap
  obtain ⟨ha, hpos, hbelow⟩ := PageTables.new_eq_ok hnew
  obtain ⟨t₀, hrun, hwf, hview, hbase, hframes, -, -, houtside⟩ :=
    PageTables.new_spec m' arenaBase arenaFrames ha hpos hbelow
  rw [hnew] at hrun
  cases hrun
  have hphysical : ∀ s ∈ segments, ∀ i < s.pages,
      s.destination low kernelPhysical + i * pageSize < 2 ^ 52 := by
    intro s hs i hi
    have hlt := mul_lt_of_lt_divCeil hi
    have hfit := (hplaced s hs).2 (by omega)
    simp only [physicalLimit] at hfit
    omega
  obtain ⟨hkeeps, hadded⟩ := mapAll_ok hwf hphysical hmap
  have hspan := Image.virtualExtent_spec hsegs hextent
  have hinside : ∀ s ∈ segments, ∀ k < s.memorySize,
      Allocated low high kernelPhysical (s.destination low kernelPhysical + k) := by
    intro s hs k hk
    obtain ⟨hlow, hhigh⟩ := hspan s hs (by omega)
    have hpages := destination_in_pages kernelPhysical hlow hhigh
    unfold Allocated
    omega
  refine ⟨?_, ⟨hinside, ?_⟩, ?_, ?_⟩
  · intro s hs k hk
    obtain ⟨permissions, -, htranslate⟩ := hadded.translate hs hk (hcanonical s hs k hk)
    refine ⟨_, permissions, (PageTables.walk_eq hkeeps.wf _).trans htranslate, ?_⟩
    have hout : ¬ t.InArena (s.destination low kernelPhysical + k) := by
      rw [PageTables.InArena, hbase, hframes]
      exact hdisjoint _ (hinside s hs k hk)
    rw [hkeeps.outside _ hout, houtside _ hout, hbytes hadded.apart_destinations s hs k hk,
      Segment.byteAt]
  · intro a hno
    apply hframe a
    intro s hs
    have := hno s hs (a - s.destination low kernelPhysical)
    omega
  · intro va address permissions hwalk a ha
    rw [PageTables.walk_eq hkeeps.wf] at hwalk
    rw [hview] at hadded
    exact hadded.allocated_of_translate hka hspan hwalk ha
  · apply hadded.apart_pages.imp
    intro s s' hapart k hk k' hk' he
    apply hapart k hk k' hk'
    rw [pageNumber, pageNumber, he]

/-- The small kernel is one small segment. -/
theorem loopSegment_small (ha : kernelPhysical % pageSize = 0)
    (hb : kernelPhysical + pageSize ≤ 2 ^ 52) :
    loopSegment.Small 0xFFFFFFFF80000000 kernelPhysical where
  low := by decide
  aligned := by decide
  placed := by rw [show loopSegment.destination 0xFFFFFFFF80000000 kernelPhysical =
    kernelPhysical from rfl, ha]
  one_slot := by decide
  in_range := by decide
  physical := by
    rw [show loopSegment.pages = 1 from rfl, Nat.one_mul]
    exact hb
  permitted := ⟨.readExecute, rfl⟩

/-- Valid small segments are copied. -/
theorem copySegments_small (hsegs : image.segments = some segments)
    (hv : ∀ s ∈ segments, s.Valid image.data)
    (hs : ∀ s ∈ segments, s.Small kernelLow kernelPhysical) (m : Memory) :
    ∃ m', copySegments image kernelLow kernelPhysical m = some (.ok (), m') := by
  refine copySegments_total hsegs hv (fun s hmem ↦ (hs s hmem).low) ?_ m
  intro s hmem
  have hend := (hs s hmem).physical
  have hpages := le_divCeil_mul s.memorySize (show 0 < pageSize by decide)
  simp only [Segment.pages, physicalLimit] at *
  omega

private theorem load_small (hsegs : image.segments = some segments)
    (hv : ∀ s ∈ segments, s.Valid image.data)
    (hs : ∀ s ∈ segments, s.Small kernelLow kernelPhysical)
    (hapart : segments.Pairwise Segment.PagesApart) (hfew : segments.length ≤ 85) :
    ∃ m' t t', copySegments image kernelLow kernelPhysical (fun _ ↦ 0) = some (.ok (), m') ∧
      PageTables.new m' 0x200000 256 = some (.ok t) ∧
      mapKernel image kernelLow kernelPhysical t = some (.ok (), t') := by
  obtain ⟨m', hcopy⟩ := copySegments_small hsegs hv hs (fun _ ↦ 0)
  obtain ⟨t, hnew, hwf, hview, -, hframes, -, hnext, -⟩ :=
    PageTables.new_spec m' 0x200000 256 (by decide) (by decide) (by decide)
  obtain ⟨t', hmap, -⟩ := mapKernel_total hwf hview hsegs hs hapart (by omega)
  exact ⟨m', t, t', hcopy, hnew, hmap⟩

/-- At 1 MiB a kernel with the one small segment is copied and mapped. -/
theorem load_loopSegment (hsegs : image.segments = some [loopSegment])
    (hv : loopSegment.Valid image.data) :
    ∃ m' t t', copySegments image 0xFFFFFFFF80000000 0x100000 (fun _ ↦ 0) = some (.ok (), m') ∧
      PageTables.new m' 0x200000 256 = some (.ok t) ∧
      mapKernel image 0xFFFFFFFF80000000 0x100000 t = some (.ok (), t') :=
  load_small hsegs (List.forall_mem_singleton.mpr hv)
    (List.forall_mem_singleton.mpr (loopSegment_small (by decide) (by decide)))
    (List.pairwise_singleton _ _) (by decide)

private theorem dataKernel_small :
    ∀ s ∈ [codeSegment, dataSegment], s.Small 0xFFFFFFFF80000000 0x100000 := by
  intro s hs
  simp only [List.mem_cons, List.not_mem_nil, or_false] at hs
  rcases hs with rfl | rfl
  · exact ⟨by decide, by decide, by decide, by decide, by decide, by decide, .readExecute, rfl⟩
  · exact ⟨by decide, by decide, by decide, by decide, by decide, by decide, .readWrite, rfl⟩

/-- The kernel with data at 1 MiB with its tables at 2 MiB: its code, its data and the last zero
after the data read back, and its two segments share no page. -/
theorem load_faithful_data_kernel :
    ∃ m' t t', copySegments dataImage 0xFFFFFFFF80000000 0x100000 (fun _ ↦ 0) =
        some (.ok (), m') ∧
      PageTables.new m' 0x200000 256 = some (.ok t) ∧
      mapKernel dataImage 0xFFFFFFFF80000000 0x100000 t = some (.ok (), t') ∧
      (∃ address permissions, walk t'.memory t'.cr3Value 0xFFFFFFFF80000001 =
        some ⟨address, permissions⟩ ∧ t'.memory address = 0xFE) ∧
      (∃ address permissions, walk t'.memory t'.cr3Value 0xFFFFFFFF80001000 =
        some ⟨address, permissions⟩ ∧ t'.memory address = 0x2A) ∧
      (∃ address permissions, walk t'.memory t'.cr3Value 0xFFFFFFFF8000101F =
        some ⟨address, permissions⟩ ∧ t'.memory address = 0) ∧
      ∀ k < 16, ∀ k' < 32, (0xFFFFFFFF80000000 + k) / pageSize ≠
        (0xFFFFFFFF80001000 + k') / pageSize := by
  obtain ⟨-, segments, hsegs, -, hvalid⟩ := Image.parse_eq_ok parse_dataKernel
  rw [segments_dataImage] at hsegs
  cases hsegs
  have hapart : codeSegment.PagesApart dataSegment := by
    unfold Segment.PagesApart
    decide
  obtain ⟨m', t, t', hcopy, hnew, hmap⟩ := load_small segments_dataImage hvalid
    dataKernel_small (List.pairwise_pair.mpr hapart) (by decide)
  have hextent : dataImage.virtualExtent = some (0xFFFFFFFF80000000, 0xFFFFFFFF80001020) := by
    rw [Image.virtualExtent, segments_dataImage]
    rfl
  have hload := load_faithful parse_dataKernel segments_dataImage (by
      intro s hs k hk
      simp only [List.mem_cons, List.not_mem_nil, or_false] at hs
      rcases hs with rfl | rfl <;> simp only [codeSegment, dataSegment] at * <;>
        exact .inr (by omega)) hextent (by decide) (by
      intro a ha
      have hpages : divCeil (0xFFFFFFFF80001020 - 0xFFFFFFFF80000000) pageSize = 2 := by decide
      rw [Allocated, hpages] at ha
      simp only [pageSize] at *
      omega) hcopy hnew hmap
  exact ⟨m', t, t', hcopy, hnew, hmap, hload.1 codeSegment (by simp) 1 (by decide),
    hload.1 dataSegment (by simp) 0 (by decide), hload.1 dataSegment (by simp) 31 (by decide),
    List.pairwise_pair.mp hload.2.2.2⟩

end LokoOS.Boot
