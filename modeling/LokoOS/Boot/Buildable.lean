import LokoOS.Boot.CallVerdicts

/-!
# When the address space can be built

`boot/loko-boot/src/main.rs:144–202,362–391` and `paging.rs:255–310`. The four steps make one
sequence of calls, from which the lenient step leaves out the pages that are there already. They
all return exactly when these calls fit.
-/

namespace LokoOS.Boot
open LokoOS.Base LokoOS.BootProtocol

/-- The calls for a range of pages of one size. -/
def rangeCalls (call : Nat → Nat → MapCall) (size virtualBase physicalBase n : Nat) :
    List MapCall :=
  (List.range n).map fun i ↦ call (virtualBase + i * size) (physicalBase + i * size)

/-- The calls for a range of 4 KiB pages. -/
def pageCalls (virtualBase physicalBase length : Nat) (p : Permissions) : List MapCall :=
  rangeCalls (.page · · p) pageSize virtualBase physicalBase (divCeil length pageSize)

/-- The calls for a range of 2 MiB pages. -/
def hugeCalls (virtualBase physicalBase length : Nat) (p : Permissions) : List MapCall :=
  rangeCalls (.hugePage · · p) hugePageSize virtualBase physicalBase (divCeil length hugePageSize)

/-- One of the calls is in the 2 MiB slot of an address. -/
def Taken (calls : List MapCall) (address : Nat) : Prop :=
  ∃ c ∈ calls, hugeNumber c.virtualAddress = hugeNumber address

instance (calls : List MapCall) (address : Nat) : Decidable (Taken calls address) :=
  inferInstanceAs (Decidable (∃ c ∈ calls, _))

namespace PageTables

variable {t t' : PageTables} {calls : List MapCall} {virtualBase physicalBase length size n : Nat}
  {va pa : Nat} {p : Permissions} {call : Nat → Nat → MapCall}

/-! ### Ranges -/

private theorem permitted_le {c : MapCall} (h : c.Permitted) :
    c.virtualAddress ≤ u64Max ∧ c.physicalAddress ≤ u64Max := by
  obtain ⟨hcanonical, hphysical⟩ := h
  unfold Canonical at hcanonical
  unfold u64Max
  omega

private theorem forall_rangeCalls {P : MapCall → Prop} :
    (∀ c ∈ rangeCalls call size virtualBase physicalBase n, P c) ↔
      ∀ i < n, P (call (virtualBase + i * size) (physicalBase + i * size)) := by
  simp only [rangeCalls, List.forall_mem_map, List.mem_range]

private theorem Asks.pages {map : Nat → Nat → Proc PageTables PagingError Unit}
    {g : Nat → List MapCall} (hva : ∀ i < divCeil length size, virtualBase + i * size ≤ u64Max)
    (hpa : ∀ i < divCeil length size, physicalBase + i * size ≤ u64Max)
    (hf : ∀ i < divCeil length size, Asks (calls ++ (List.range i).flatMap g) (g i)
      (map (virtualBase + i * size) (physicalBase + i * size))) :
    Asks calls ((List.range (divCeil length size)).flatMap g)
      (forPages size virtualBase physicalBase length map) := by
  apply Asks.forRange
  intro i hi
  have hv := hva i hi
  apply Asks.lift_bind (mulU64_of_le (by omega))
  apply Asks.lift_bind (addU64_of_le hv)
  apply Asks.lift_bind (addU64_of_le (hpa i hi))
  exact hf i hi

/-- A call at two addresses is made at them. -/
def Places (call : Nat → Nat → MapCall) : Prop :=
  ∀ va pa, (call va pa).virtualAddress = va ∧ (call va pa).physicalAddress = pa

private theorem rangeCalls_le (hcall : Places call)
    (hp : ∀ c ∈ rangeCalls call size virtualBase physicalBase n, c.Permitted) {i : Nat}
    (hi : i < n) : virtualBase + i * size ≤ u64Max ∧ physicalBase + i * size ≤ u64Max := by
  have hle := permitted_le (forall_rangeCalls.mp hp i hi)
  rwa [(hcall _ _).1, (hcall _ _).2] at hle

private theorem forall_permitted (hcall : Places call)
    (hcanonical : ∀ k < length, Canonical (virtualBase + k))
    (hphysical : physicalBase + length ≤ 2 ^ 52) :
    ∀ c ∈ rangeCalls call size virtualBase physicalBase (divCeil length size), c.Permitted := by
  refine forall_rangeCalls.mpr fun i hi ↦ ?_
  have hlt := mul_lt_of_lt_divCeil hi
  obtain ⟨hv, hp⟩ := hcall (virtualBase + i * size) (physicalBase + i * size)
  constructor
  · rw [hv]
    exact hcanonical _ hlt
  · rw [hp]
    omega

private theorem Asks.range (hcall : Places call)
    (hp : ∀ c ∈ rangeCalls call size virtualBase physicalBase (divCeil length size),
      c.Permitted) :
    Asks calls (rangeCalls call size virtualBase physicalBase (divCeil length size))
      (forPages size virtualBase physicalBase length fun va pa ↦ (call va pa).run) := by
  rw [rangeCalls, List.map_eq_flatMap]
  apply Asks.pages
  · exact fun i hi ↦ (rangeCalls_le hcall hp hi).1
  · exact fun i hi ↦ (rangeCalls_le hcall hp hi).2
  · exact fun i hi ↦ .one (forall_rangeCalls.mp hp i hi)

private theorem mapRange_asks
    (hp : ∀ c ∈ pageCalls virtualBase physicalBase length p, c.Permitted) :
    Asks calls (pageCalls virtualBase physicalBase length p)
      (mapRange virtualBase physicalBase length p) :=
  Asks.range (fun _ _ ↦ ⟨rfl, rfl⟩) hp

private theorem mapHugeRange_asks
    (hp : ∀ c ∈ hugeCalls virtualBase physicalBase length p, c.Permitted) :
    Asks calls (hugeCalls virtualBase physicalBase length p)
      (mapHugeRange virtualBase physicalBase length p) :=
  Asks.range (fun _ _ ↦ ⟨rfl, rfl⟩) hp

/-! ### The lenient range -/

private theorem Made.taken_iff (h : t.Made calls) : Taken calls va ↔
    t.view.huge (hugeNumber va) ≠ none ∨ t.view.tabled (hugeNumber va) = true := by
  constructor
  · rintro ⟨c, hc, hnumber⟩
    cases hpage : c.isPage with
    | true => exact .inr ((h.mapped.tabled_iff _).mpr ⟨c, hc, hpage, hnumber⟩)
    | false =>
      have hleaf := (h.mapped.huge_iff _ _).mpr ⟨c, hc, hpage, hnumber, rfl⟩
      exact .inl (by rw [hleaf]; exact Option.some_ne_none _)
  · rintro (hne | htab)
    · obtain ⟨leaf, hleaf⟩ := Option.ne_none_iff_exists'.mp hne
      obtain ⟨c, hc, -, hnumber, -⟩ := (h.mapped.huge_iff _ _).mp hleaf
      exact ⟨c, hc, hnumber⟩
    · obtain ⟨c, hc, -, hnumber⟩ := (h.mapped.tabled_iff _).mp htab
      exact ⟨c, hc, hnumber⟩

private theorem mapHugePage_taken (h : t.Made calls)
    (hcall : (MapCall.hugePage va pa p).Aligned ∧ (MapCall.hugePage va pa p).Permitted)
    (htaken : Taken calls va) :
    ∃ t', mapHugePage va pa p t = some (.error .conflict, t') ∧ t'.Made calls ∧
      t'.arenaFrames = t.arenaFrames := by
  obtain ⟨⟨hva, hpa⟩, -, hb⟩ := hcall
  change va % hugePageSize = 0 at hva
  change pa % hugePageSize = 0 at hpa
  change pa < 2 ^ 52 at hb
  -- the tables on the way to a taken slot exist
  have hframes : t.directoryFrames va = 0 := by
    obtain ⟨c, hc, hnumber⟩ := htaken
    apply directoryFrames_of_isSome
    rw [← h.uses.tables 2 (by decide), MapCall.visited, MapCall.distinct, List.mem_toFinset]
    exact List.mem_map.mpr ⟨c, hc, by rw [hnumber]⟩
  have hrun : mapHugePage va pa p t = (descend t.pml4 (pml4Index va) >>= fun pdpt ↦
      descend pdpt (pdptIndex va) >>= fun pd ↦
        writeLeaf pd (pdIndex va) (hugeEntry pa p)) t := by
    rw [mapHugePage, if_neg (by omega)]
    rfl
  obtain ⟨-, -, h2, -, -, -, hn2, -⟩ := index_digits va
  rcases directory_spec h.uses.wf va fun pd ↦ writeLeaf pd (pdIndex va) (hugeEntry pa p) with
    ⟨pd, t', hdir, hk, ht, hv, hnext, -⟩ | ⟨t', -, -, -, hfull⟩
  · rcases writeLeaf_huge_spec hk.wf ht h2 p hpa hb with ⟨hnone, htab, -⟩ | ⟨-, hwrite⟩
    · rw [hn2, hv] at hnone htab
      rcases h.taken_iff.mp htaken with hne | ht'
      · exact absurd hnone hne
      · exact absurd (htab.symm.trans ht') Bool.false_ne_true
    · have huses : t'.Uses calls := by
        apply hk.wf.uses
        · intro ℓ hℓ n hn
          obtain ⟨f, hf⟩ := Option.isSome_iff_exists.mp ((h.uses.tables ℓ hℓ n).mp hn)
          rw [hk.tables ℓ n f hℓ hf]
          rfl
        · rw [hnext, hframes, Nat.add_zero, h.uses.next_eq]
      have hmapped := h.mapped
      have hfit := h.fit
      rw [← hv] at hmapped
      rw [← hk.frames_eq] at hfit
      exact ⟨t', by rw [hrun, hdir, hwrite], ⟨huses, hmapped, h.permitted, hfit⟩, hk.frames_eq⟩
  · have hle := h.uses.wf.next_le
    omega

/-- What a lenient call adds to the calls before it. -/
def addition (calls : List MapCall) (va pa : Nat) (p : Permissions) : List MapCall :=
  if Taken calls va then [] else [.hugePage va pa p]

private theorem addition_append {more : List MapCall}
    (h : ∀ c ∈ more, hugeNumber c.virtualAddress ≠ hugeNumber va) :
    addition (calls ++ more) va pa p = addition calls va pa p := by
  have hiff : Taken (calls ++ more) va ↔ Taken calls va := by
    constructor
    · rintro ⟨c, hc, hnumber⟩
      rcases List.mem_append.mp hc with hc | hc
      · exact ⟨c, hc, hnumber⟩
      · exact absurd hnumber (h c hc)
    · rintro ⟨c, hc, hnumber⟩
      exact ⟨c, List.mem_append_left _ hc, hnumber⟩
  simp only [addition, hiff]

private theorem mapHugePageLenient_asks (calls : List MapCall)
    (hcall : (MapCall.hugePage va pa p).Aligned ∧ (MapCall.hugePage va pa p).Permitted) :
    Asks calls (addition calls va pa p) (mapHugePageLenient va pa p) := by
  intro t h
  unfold addition
  split
  · next htaken =>
    obtain ⟨t', hrun, hmade, hframes⟩ := mapHugePage_taken h hcall htaken
    have hlenient : mapHugePageLenient va pa p t = some (.ok (), t') := by
      rw [mapHugePageLenient, Proc.run_bind, Proc.run_attempt, hrun]
      rfl
    rw [List.append_nil, hlenient]
    refine ⟨iff_of_true ⟨t', rfl⟩ h.fit, fun s hs ↦ ?_⟩
    cases hs
    exact ⟨hmade, hframes⟩
  · next htaken =>
    have hsame (t' : PageTables) : mapHugePageLenient va pa p t = some (.ok (), t') ↔
        (MapCall.hugePage va pa p).run t = some (.ok (), t') := by
      obtain ⟨⟨hva, hpa⟩, -, hb⟩ := hcall
      obtain ⟨s, -, hcase⟩ := mapHugePage_spec h.uses.wf va pa p hva hpa hb
      rw [mapHugePageLenient, Proc.run_bind, Proc.run_attempt, MapCall.run]
      rcases hcase with ⟨hrun, -⟩ | ⟨-, -, -, hthere⟩ | ⟨hrun, -⟩
      · rw [hrun]
        rfl
      · exact absurd (h.taken_iff.mpr hthere) htaken
      · rw [hrun]
        constructor <;> intro hno <;> cases hno
    simp only [hsame]
    exact Asks.one hcall.2 t h

private theorem hugePage_aligned (hva : va % hugePageSize = 0) (hpa : pa % hugePageSize = 0) :
    (MapCall.hugePage va pa p).Aligned := ⟨hva, hpa⟩

/-- What a lenient range adds to the calls before it. -/
def additions (calls : List MapCall) (size virtualBase physicalBase n : Nat) (p : Permissions) :
    List MapCall :=
  (List.range n).flatMap fun i ↦
    addition calls (virtualBase + i * size) (physicalBase + i * size) p

private theorem virtualAddress_of_mem_addition {c : MapCall} (hc : c ∈ addition calls va pa p) :
    c.virtualAddress = va := by
  unfold addition at hc
  split at hc
  · cases hc
  · rw [List.mem_singleton.mp hc]
    rfl

private theorem virtualAddress_of_mem_additions {c : MapCall}
    (hc : c ∈ additions calls size virtualBase physicalBase n p) :
    ∃ i < n, c.virtualAddress = virtualBase + i * size := by
  obtain ⟨i, hi, hc⟩ := List.mem_flatMap.mp hc
  exact ⟨i, List.mem_range.mp hi, virtualAddress_of_mem_addition hc⟩

private theorem Asks.additions
    (hcalls : ∀ c ∈ rangeCalls (.hugePage · · p) size virtualBase physicalBase
      (divCeil length size), c.Aligned ∧ c.Permitted)
    (hd : ∀ i j, i < j → j < divCeil length size →
      hugeNumber (virtualBase + i * size) ≠ hugeNumber (virtualBase + j * size)) :
    Asks calls (additions calls size virtualBase physicalBase (divCeil length size) p)
      (forPages size virtualBase physicalBase length fun va pa ↦
        mapHugePageLenient va pa p) := by
  have hplaces : Places (.hugePage · · p) := fun _ _ ↦ ⟨rfl, rfl⟩
  have hpermitted := fun c hc ↦ (hcalls c hc).2
  unfold PageTables.additions
  apply Asks.pages
  · exact fun i hi ↦ (rangeCalls_le hplaces hpermitted hi).1
  · exact fun i hi ↦ (rangeCalls_le hplaces hpermitted hi).2
  · intro i hi
    have hasks := mapHugePageLenient_asks
      (calls ++ PageTables.additions calls size virtualBase physicalBase i p)
      (forall_rangeCalls.mp hcalls i hi)
    have hother : ∀ c ∈ PageTables.additions calls size virtualBase physicalBase i p,
        hugeNumber c.virtualAddress ≠ hugeNumber (virtualBase + i * size) := by
      -- the earlier pages of the range are in other slots
      intro c hc
      obtain ⟨j, hj, hc⟩ := virtualAddress_of_mem_additions hc
      rw [hc]
      exact hd j i hj hi
    rw [addition_append hother] at hasks
    exact hasks

end PageTables

open PageTables

variable {image : Image} {kernelLow kernelPhysical highestRam arenaBase arenaFrames : Nat}
  {segments : List Segment} {segment : Segment} {fb : Framebuffer} {calls : List MapCall}
  {t : PageTables} {memory : Memory}

/-! ### The steps -/

/-- The calls for a segment. -/
def Segment.kernelCalls (kernelLow kernelPhysical : Nat) (s : Segment) : List MapCall :=
  match s.permissions with
  | .ok p => pageCalls s.virtualAddress (s.destination kernelLow kernelPhysical) s.memorySize p
  | .error _ => []

/-- A segment of a kernel in the higher half, in memory that the tables can reach. -/
structure Segment.InReach (s : Segment) (kernelLow kernelPhysical : Nat) : Prop where
  low : kernelLow ≤ s.virtualAddress
  higher : s.HigherHalf
  physical : s.destination kernelLow kernelPhysical + s.memorySize ≤ 2 ^ 46

private theorem mapSegment_asks (h : segment.InReach kernelLow kernelPhysical)
    (hp : ∃ p, segment.permissions = .ok p) :
    Asks calls (segment.kernelCalls kernelLow kernelPhysical)
      (mapSegment kernelLow kernelPhysical segment) := by
  obtain ⟨p, hp⟩ := hp
  have hfits := h.physical
  obtain ⟨hbase, hend⟩ := h.higher
  have hpermitted : ∀ c ∈ pageCalls segment.virtualAddress
      (segment.destination kernelLow kernelPhysical) segment.memorySize p, c.Permitted := by
    apply forall_permitted (fun _ _ ↦ ⟨rfl, rfl⟩)
    · intro k hk
      simp only [kernelVirtualBase] at hbase
      exact .inr (by omega)
    · omega
  have hadd : addU64 kernelPhysical (segment.virtualAddress - kernelLow) =
      some (segment.destination kernelLow kernelPhysical) := by
    apply addU64_of_le
    simp only [Segment.destination] at hfits
    simp only [u64Max]
    omega
  rw [mapSegment, Segment.kernelCalls, hp]
  apply Asks.lift_bind (subU64_of_le h.low)
  apply Asks.lift_bind hadd
  exact (mapRange_asks hpermitted).mapError

/-- Mapping the kernel asks for the pages of its segments. -/
theorem mapKernel_asks (calls : List MapCall) (hsegs : image.segments = some segments)
    (h : ∀ s ∈ segments, s.InReach kernelLow kernelPhysical)
    (hp : ∀ s ∈ segments, ∃ p, s.permissions = .ok p) :
    Asks calls (segments.flatMap (Segment.kernelCalls kernelLow kernelPhysical))
      (mapKernel image kernelLow kernelPhysical) := by
  apply Asks.lift_bind hsegs
  exact Asks.forEach fun s hs _ ↦ mapSegment_asks (h s hs) (hp s hs)

private theorem permissions_of_mapKernel {t' : PageTables} (hsegs : image.segments = some segments)
    (hrun : mapKernel image kernelLow kernelPhysical t = some (.ok (), t')) :
    ∀ s ∈ segments, ∃ p, s.permissions = .ok p := by
  rw [mapKernel, hsegs, Proc.run_bind_ok (Proc.run_lift_some _ _)] at hrun
  refine Proc.forEach_ok_invariant (fun (done : List Segment) (_ : PageTables) ↦
    ∀ s ∈ done, ∃ p, s.permissions = .ok p) ?_ (by simp) hrun
  intro done s u u' _ hdone hstep x hx
  rcases List.mem_append.mp hx with hx | hx
  · exact hdone x hx
  · rw [List.mem_singleton.mp hx]
    rw [mapSegment, Proc.bind_eq_ok] at hstep
    obtain ⟨p, _, hp, -⟩ := hstep
    exact ⟨p, (Proc.ofExcept_eq_ok.mp hp).1⟩

/-- The calls for the window on memory. -/
def windowCalls (highestRam : Nat) : List MapCall :=
  hugeCalls defaultPhysicalMemoryOffset 0 highestRam .readWrite

/-- Mapping the window asks for its pages. -/
theorem mapWindow_asks (hram : highestRam ≤ maxMappedPhysical) :
    Asks calls (windowCalls highestRam)
      (mapHugeRange defaultPhysicalMemoryOffset 0 highestRam .readWrite) := by
  apply mapHugeRange_asks
  simp only [maxMappedPhysical] at hram
  apply forall_permitted (fun _ _ ↦ ⟨rfl, rfl⟩)
  · intro k hk
    simp only [defaultPhysicalMemoryOffset]
    exact .inr (by omega)
  · omega

/-- The calls for the low addresses. -/
def identityCalls : List MapCall := hugeCalls 0 0 identityMappedBytes .readExecute

/-- Mapping the low addresses asks for their pages. -/
theorem mapIdentity_asks :
    Asks calls identityCalls (mapHugeRange 0 0 identityMappedBytes .readExecute) := by
  apply mapHugeRange_asks
  apply forall_permitted (fun _ _ ↦ ⟨rfl, rfl⟩)
  · intro k hk
    simp only [identityMappedBytes] at hk
    exact .inl (by omega)
  · simp only [identityMappedBytes]
    omega

/-- What the screen adds to the calls before it: the pages whose slots are not taken. -/
def screenCalls (calls : List MapCall) (fb : Framebuffer) : List MapCall :=
  additions calls hugePageSize (defaultPhysicalMemoryOffset + framebufferBase fb)
    (framebufferBase fb) (framebufferPages fb) .readWrite

/-- Mapping the screen asks for the pages whose slots are not taken. -/
theorem mapFramebuffer_asks (hfb : fb.base + fb.size ≤ 2 ^ 46) :
    Asks calls (screenCalls calls fb) (mapFramebuffer fb) := by
  unfold screenCalls mapFramebuffer framebufferPages
  split
  · have hle : framebufferBase fb ≤ fb.base := by
      rw [framebufferBase_eq (by omega)]
      exact Nat.div_mul_le_self ..
    have hbase := framebufferBase_aligned fb
    generalize framebufferBase fb = base at hle hbase ⊢
    apply Asks.lift_bind (subU64_of_le hle)
    apply Asks.lift_bind (addU64_of_le (by simp only [u64Max]; omega))
    apply Asks.lift_bind
      (addU64_of_le (by simp only [defaultPhysicalMemoryOffset, u64Max]; omega))
    refine Asks.mapError (Asks.additions (fun c hc ↦ ⟨?_, ?_⟩) ?_)
    · revert c
      refine forall_rangeCalls.mpr fun i _ ↦ hugePage_aligned ?_ ?_
      · rw [Nat.add_mul_mod_self_right]
        simp only [defaultPhysicalMemoryOffset, hugePageSize] at hbase ⊢
        omega
      · rw [Nat.add_mul_mod_self_right]
        exact hbase
    · refine forall_permitted (fun _ _ ↦ ⟨rfl, rfl⟩) (fun k hk ↦ ?_) (by omega) c hc
      simp only [defaultPhysicalMemoryOffset]
      exact .inr (by omega)
    · intro i j hij hj
      have hlt := mul_lt_of_lt_divCeil hj
      simp only [hugeNumber, defaultPhysicalMemoryOffset, hugePageSize] at hlt ⊢
      omega
  · exact .pure

/-! ### The whole build -/

/-- The calls for the whole address space, in the order in which they are made. -/
def buildCalls (kernelLow kernelPhysical highestRam : Nat) (segments : List Segment)
    (fb : Framebuffer) : List MapCall :=
  let before := segments.flatMap (Segment.kernelCalls kernelLow kernelPhysical) ++
    windowCalls highestRam
  before ++ (screenCalls before fb ++ identityCalls)

/-- Building the address space asks for its calls. -/
theorem buildAddressSpace_asks (hsegs : image.segments = some segments)
    (h : ∀ s ∈ segments, s.InReach kernelLow kernelPhysical)
    (hp : ∀ s ∈ segments, ∃ p, s.permissions = .ok p)
    (hram : highestRam ≤ maxMappedPhysical) (hfb : fb.base + fb.size ≤ 2 ^ 46) :
    Asks [] (buildCalls kernelLow kernelPhysical highestRam segments fb)
      (buildAddressSpace image kernelLow kernelPhysical highestRam fb) := by
  have hkernel := mapKernel_asks [] hsegs h hp
  rw [buildCalls, List.append_assoc]
  apply hkernel.bind
  rw [List.nil_append]
  apply (mapWindow_asks hram).mapError.bind
  apply (mapFramebuffer_asks hfb).bind
  exact mapIdentity_asks.mapError

/-- The address space of a kernel in the higher half is built exactly when the permissions of
its segments can be honoured, every page that is asked for is aligned, no two of them cover a
common address, and the arena has a frame for each table that they need. -/
theorem buildAddressSpace_succeeds_iff
    (hnew : PageTables.new memory arenaBase arenaFrames = some (.ok t))
    (hsegs : image.segments = some segments)
    (hreach : ∀ s ∈ segments, s.InReach kernelLow kernelPhysical)
    (hram : highestRam ≤ maxMappedPhysical) (hfb : fb.base + fb.size ≤ 2 ^ 46) :
    (∃ t', buildAddressSpace image kernelLow kernelPhysical highestRam fb t =
        some (.ok (), t')) ↔
      (∀ s ∈ segments, ∃ p, s.permissions = .ok p) ∧
      (∀ c ∈ buildCalls kernelLow kernelPhysical highestRam segments fb, c.Aligned) ∧
      ((buildCalls kernelLow kernelPhysical highestRam segments fb).Pairwise fun c d ↦
        ∀ a, ¬ (c.Covers a ∧ d.Covers a)) ∧
      MapCall.tablesNeeded (buildCalls kernelLow kernelPhysical highestRam segments fb) ≤
        arenaFrames := by
  obtain ⟨hfresh, hframes⟩ := made_new hnew
  have hiff (hp : ∀ s ∈ segments, ∃ p, s.permissions = .ok p) :=
    (buildAddressSpace_asks hsegs hreach hp hram hfb t hfresh).1
  simp only [hframes, List.nil_append] at hiff
  constructor
  · rintro ⟨t', hrun⟩
    have hp : ∀ s ∈ segments, ∃ p, s.permissions = .ok p := by
      rw [buildAddressSpace, Proc.bind_eq_ok] at hrun
      obtain ⟨_, t₁, hkernel, -⟩ := hrun
      exact permissions_of_mapKernel hsegs hkernel
    have hfit := (hiff hp).mp ⟨t', hrun⟩
    exact ⟨hp, hfit.aligned, hfit.apart.imp fun hno a ha ↦ hno ⟨a, ha⟩, hfit.room⟩
  · rintro ⟨hp, haligned, hapart, hroom⟩
    exact (hiff hp).mpr ⟨haligned, hapart.imp fun hno hover ↦ hno _ hover.choose_spec, hroom⟩

/-- The tables of the small kernel need at most the 256 frames that they had, though the window
has taken two of the screen's four slots. -/
theorem buildAddressSpace_succeeds_iff_loop_kernel :
    MapCall.tablesNeeded
      (buildCalls 0xFFFFFFFF80000000 0x100000 0x1000000 [loopSegment] loopScreen) ≤ 256 := by
  obtain ⟨t, hnew, hwf, hview, -, hframes, -, hnext, -⟩ :=
    PageTables.new_spec (fun _ ↦ 0) 0x200000 256 (by decide) (by decide) (by decide)
  have hrun : ∃ t', buildAddressSpace loopImage 0xFFFFFFFF80000000 0x100000 0x1000000
      loopScreen t = some (.ok (), t') :=
    buildAddressSpace_total hwf hview segments_loopImage (loopSegment_small (by decide)
      (by decide)) loopSegment_higherHalf (by decide) (by decide)
      (by rw [hnext, hframes]; decide)
  have hreach : ∀ s ∈ [loopSegment], s.InReach 0xFFFFFFFF80000000 0x100000 := by
    intro s hs
    rw [List.mem_singleton.mp hs]
    exact ⟨by decide, loopSegment_higherHalf, by decide⟩
  exact ((buildAddressSpace_succeeds_iff hnew segments_loopImage hreach (by decide)
    (by decide)).mp hrun).2.2.2

end LokoOS.Boot
