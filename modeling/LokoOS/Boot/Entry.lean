import LokoOS.Boot.Extent
import LokoOS.Boot.LoadAndStart

/-!
# The entry address

`boot/loko-boot/src/elf.rs:154` and `main.rs:213–276`. The entry address of the file is kept as
it is read and jumped to at the end. Nothing compares it with the segments, so whether the jump
lands in the kernel's code is up to the file.
-/

namespace LokoOS.Boot
open LokoOS.Base LokoOS.BootProtocol

variable {data : List UInt8} {image : Image} {kernelLow kernelPhysical highestRam : Nat}
  {segments : List Segment} {segment : Segment} {fb : Framebuffer} {m m' : Memory}
  {t t' t'' : PageTables}

/-- An executable segment of a file has an address in it. -/
def InCode (data : List UInt8) (address : Nat) : Prop :=
  ∃ s ∈ loadable data, s.isExecutable = true ∧ s.virtualAddress ≤ address ∧
    address < s.virtualAddress + s.memorySize

/-- The tables map an address executable and not writable. -/
def MappedAsCode (t : PageTables) (address : Nat) : Prop :=
  ∃ tr, walk t.memory t.cr3Value address = some tr ∧ tr.permissions.executable = true ∧
    tr.permissions.writable = false

private theorem Segment.permissions_of_isExecutable {permissions : Permissions}
    (h : segment.permissions = .ok permissions) (hx : segment.isExecutable = true) :
    permissions = .readExecute := by
  rw [Segment.permissions, hx] at h
  cases hw : segment.isWritable with
  | true =>
    rw [hw] at h
    cases h
  | false =>
    rw [hw] at h
    cases h
    rfl

private theorem KernelAdded.translate_code {k p : PageMap}
    (h : KernelAdded kernelLow kernelPhysical segments .empty k) (hpage : p.page = k.page)
    (hs : segment ∈ segments) (hx : segment.isExecutable = true) {address : Nat}
    (hlow : segment.virtualAddress ≤ address)
    (hhigh : address < segment.virtualAddress + segment.memorySize) (hc : Canonical address) :
    ∃ frame, p.translate address = some ⟨frame, .readExecute⟩ := by
  obtain ⟨j, rfl⟩ := Nat.exists_eq_add_of_le hlow
  obtain ⟨permissions, hp, ht⟩ := h.translate hs (by omega) hc
  rw [Segment.permissions_of_isExecutable hp hx] at ht
  exact ⟨_, (h.translate_of_page_eq hpage hs (by omega)).trans ht⟩

private theorem entry_iff_of_kernel {k : PageMap} (hwf : t.WF)
    (hk : KernelAdded kernelLow kernelPhysical (loadable data) .empty k)
    (hpage : t.view.page = k.page) {address : Nat} :
    InCode data address ∧ MappedAsCode t address ↔ Canonical address ∧ InCode data address := by
  constructor
  · intro h
    obtain ⟨hcode, tr, hwalk, -⟩ := h
    rw [PageTables.walk_eq hwf] at hwalk
    exact ⟨(PageMap.translate_eq_some hwalk).1, hcode⟩
  · intro h
    obtain ⟨hc, s, hs, hx, hlow, hhigh⟩ := h
    obtain ⟨frame, ht⟩ := hk.translate_code hpage hs hx hlow hhigh hc
    exact ⟨⟨s, hs, hx, hlow, hhigh⟩, _, (PageTables.walk_eq hwf _).trans ht, rfl, rfl⟩

/-- The entry of an accepted file whose kernel was copied and mapped on fresh tables lies in an
executable segment and is mapped as code exactly when the entry field of the file is canonical
and in an executable segment. The same holds of the tables that are jumped with, which have the
window, the screen and the low addresses too. -/
theorem entry_in_code_iff (hparse : Image.parse data () = some (.ok image, ()))
    (hcopy : copySegments image kernelLow kernelPhysical m = some (.ok (), m'))
    {arenaBase arenaFrames : Nat} (hnew : PageTables.new m' arenaBase arenaFrames = some (.ok t))
    (hmap : mapKernel image kernelLow kernelPhysical t = some (.ok (), t')) :
    (InCode data image.entry ∧ MappedAsCode t' image.entry ↔
      Canonical (entryField data) ∧ InCode data (entryField data)) ∧
    ∀ highestRam fb t'', highestRam ≤ maxMappedPhysical →
      buildAddressSpace image kernelLow kernelPhysical highestRam fb t = some (.ok (), t'') →
      (InCode data image.entry ∧ MappedAsCode t'' image.entry ↔
        Canonical (entryField data) ∧ InCode data (entryField data)) := by
  have hsegments := Image.segments_eq_loadable hparse
  have hentry : image.entry = entryField data := by
    rw [(Image.parse_eq_imageOf hparse).1]
    rfl
  obtain ⟨hdata, segments, hsegs, -, hvalid⟩ := Image.parse_eq_ok hparse
  obtain rfl := Option.some.inj (hsegs.symm.trans hsegments)
  have hphysical := copySegments_placed hsegs (fun s hs ↦ hdata ▸ hvalid s hs) hcopy
  obtain ⟨ha, hpos, hbelow⟩ := PageTables.new_eq_ok hnew
  obtain ⟨t₀, hrun, hwf, hview, -⟩ := PageTables.new_spec m' arenaBase arenaFrames ha hpos hbelow
  rw [hnew] at hrun
  cases hrun
  rw [hentry]
  constructor
  · rw [mapKernel, Proc.run_lift_bind hsegs] at hmap
    obtain ⟨hkeeps, hadded⟩ := mapAll_ok hwf hphysical hmap
    rw [hview] at hadded
    exact entry_iff_of_kernel hkeeps.wf hadded rfl
  · intro highestRam fb t'' hram hbuild
    obtain ⟨hkeeps, hspace⟩ := buildAddressSpace_ok hwf hview hsegs hphysical hram hbuild
    obtain ⟨k, hadded, hpage, -⟩ := hspace.kernel
    exact entry_iff_of_kernel hkeeps.wf hadded hpage

set_option maxRecDepth 4000 in
private theorem segments_loopImageAt :
    (loopImageAt 0 0xFFFFFFFF80000000 16).segments = some [loopSegment] := by rfl

set_option maxRecDepth 4000 in
/-- The entry of the small kernel is code. -/
theorem loopKernel_entry_in_code :
    ∃ m' t t', copySegments loopImage 0xFFFFFFFF80000000 0x100000 (fun _ ↦ 0) =
        some (.ok (), m') ∧
      PageTables.new m' 0x200000 256 = some (.ok t) ∧
      mapKernel loopImage 0xFFFFFFFF80000000 0x100000 t = some (.ok (), t') ∧
      InCode loopKernel loopImage.entry ∧ MappedAsCode t' loopImage.entry := by
  obtain ⟨m', t, t', hcopy, hnew, hmap⟩ :=
    load_loopSegment segments_loopImage (loopSegment_valid [])
  refine ⟨m', t, t', hcopy, hnew, hmap, ?_⟩
  apply (entry_in_code_iff parse_loopKernel hcopy hnew hmap).1.mpr
  have hl : loadable loopKernel = [loopSegment] := by rfl
  have he : entryField loopKernel = 0xFFFFFFFF80000000 := by rfl
  rw [InCode, hl, he]
  exact ⟨by decide, loopSegment, List.mem_singleton_self _, by decide, by decide, by decide⟩

set_option maxRecDepth 4000 in
/-- The small kernel with its entry at zero is accepted, copied and mapped, and its entry is in
no segment. -/
theorem loopKernel_entry_not_in_code :
    Image.parse (loopKernelAt 0 0xFFFFFFFF80000000 16) () =
        some (.ok (loopImageAt 0 0xFFFFFFFF80000000 16), ()) ∧
      (∃ m' t t', copySegments (loopImageAt 0 0xFFFFFFFF80000000 16) 0xFFFFFFFF80000000 0x100000
          (fun _ ↦ 0) = some (.ok (), m') ∧
        PageTables.new m' 0x200000 256 = some (.ok t) ∧
        mapKernel (loopImageAt 0 0xFFFFFFFF80000000 16) 0xFFFFFFFF80000000 0x100000 t =
          some (.ok (), t')) ∧
      ¬ InCode (loopKernelAt 0 0xFFFFFFFF80000000 16)
        (loopImageAt 0 0xFFFFFFFF80000000 16).entry := by
  have hl : loadable (loopKernelAt 0 0xFFFFFFFF80000000 16) = [loopSegment] := by rfl
  have hlen : (loopKernelAt 0 0xFFFFFFFF80000000 16).length = 122 := by rfl
  refine ⟨by rfl, load_loopSegment segments_loopImageAt ?_, ?_⟩
  · constructor
    · decide
    · change loopSegment.fileOffset + loopSegment.fileSize ≤
        (loopKernelAt 0 0xFFFFFFFF80000000 16).length
      rw [hlen]
      decide
    · decide
    · decide
  · rw [InCode, hl]
    intro h
    obtain ⟨s, hs, -, hlow, -⟩ := h
    rw [List.mem_singleton.mp hs] at hlow
    exact absurd hlow (by decide)

end LokoOS.Boot
