import LokoOS.Kernel.Started

/-!
# Owners of memory do not disturb each other

`boot/loko-boot/src/main.rs:99–277` and `kernel/loko-memory/src/lib.rs:220–301` together. After
the handover clients allocate and free runs of frames and write, through the physical window,
to the runs they hold. The allocator's bitmap is a static of the kernel's image, and the page
tables that translate all of this lie in memory themselves, so that neither a client nor the
allocator ever reaches the tables is an invariant of the whole run.
-/

namespace LokoOS.Memory
open LokoOS.Base FrameAllocator

/-- The physical address of a byte of a run. -/
def Run.byteAt (run : Run) (i : Nat) : Nat := run.start * frameSize + i

/-- Bytes of a run. -/
def Run.size (run : Run) : Nat := run.count * frameSize

variable {run : Run}

private theorem Run.byteAt_frame {i : Nat} (hi : i < run.size) :
    ∃ g ∈ run.frames, ∃ k < frameSize, run.byteAt i = g * frameSize + k := by
  refine ⟨run.start + i / frameSize, ?_, i % frameSize, Nat.mod_lt _ (by decide), ?_⟩
  · rw [Run.frames, mem_runOf]
    exact ⟨Nat.le_add_right _ _, Nat.add_lt_add_left (Nat.div_lt_of_lt_mul (by
      rwa [Nat.mul_comm])) _⟩
  · simp only [Run.byteAt, frameSize]
    omega

private theorem Run.byteAt_ne {run' : Run} (h : Disjoint run.frames run'.frames) {i j : Nat}
    (hi : i < run.size) (hj : j < run'.size) : run.byteAt i ≠ run'.byteAt j := by
  obtain ⟨g, hg, k, hk, hgk⟩ := byteAt_frame hi
  obtain ⟨g', hg', k', hk', hgk'⟩ := byteAt_frame hj
  intro he
  have hsame : g = g' := by
    simp only [frameSize] at *
    omega
  exact Finset.disjoint_left.mp h hg (hsame ▸ hg')

private theorem Session.Owned.disjoint {a₀ : FrameAllocator} {s : Session} (h : s.Owned a₀)
    {run' : Run}
    (hr : run ∈ s.outstanding) (hr' : run' ∈ s.outstanding) (hne : run ≠ run') :
    Disjoint run.frames run'.frames := by
  have : Std.Symm fun r r' : Run ↦ Disjoint r.frames r'.frames := ⟨fun _ _ hd ↦ hd.symm⟩
  exact h.balanced.disjoint.forall hr hr' hne

end LokoOS.Memory

namespace LokoOS.Kernel
open LokoOS.Base LokoOS.BootProtocol LokoOS.Memory LokoOS.Boot FrameAllocator

/-- The kernel's own data: its image, with the static bitmap of `main.rs:60` in it, and its
stack, with the counters of the allocator. -/
def Owns (p : Boot.Prepared) (a : Nat) : Prop :=
  (p.kernelPhysical ≤ a ∧ a < p.kernelPhysical + p.kernelSpan) ∨
    (p.stack ≤ a ∧ a < p.stack + kernelStackPages * pageSize)

/-- A running system: the memory of the machine, and the clients of the allocator. -/
structure Running where
  memory : Memory
  session : Session

/-- What a client does: it makes a request, or writes a byte to a run that it holds. -/
inductive Action where
  | request (req : Request)
  | write (run : Run) (index : Nat) (byte : UInt8)

/-- The action writes to `run`. -/
def Action.WritesTo (run : Run) : Action → Prop
  | .request _ => False
  | .write run' _ _ => run' = run

namespace Running

/-- A client frees only a run that is outstanding, and writes only inside one. -/
def Permitted (s : Running) : Action → Prop
  | .request req => s.session.Permitted req
  | .write run i _ => run ∈ s.session.outstanding ∧ i < run.size

/-- One action, with the window at `offset`. A request is served by the kernel, which writes
words of the bitmap and its stack: any bytes of its own data, and no others. A page fault or a
panic has no outcome. -/
inductive Step (own : Nat → Prop) (cr3 offset : Nat) (s : Running) : Action → Running → Prop
  | request {req : Request} {r : Except MemoryError Unit} {session : Session} {memory : Memory}
      (served : s.session.step req = some (r, session))
      (elsewhere : ∀ a, ¬ own a → memory a = s.memory a) :
      Step own cr3 offset s (.request req) ⟨memory, session⟩
  | write {run : Run} {i : Nat} {byte : UInt8} {memory : Memory}
      (stored : storeByte s.memory cr3 (offset + run.byteAt i) byte = some memory) :
      Step own cr3 offset s (.write run i byte) ⟨memory, s.session⟩

/-- The states that permitted actions, in any order, can reach. -/
inductive Reachable (own : Nat → Prop) (cr3 offset : Nat) (s₀ : Running) : Running → Prop
  | start : Reachable own cr3 offset s₀ s₀
  | step {s s' : Running} {action : Action} (h : Reachable own cr3 offset s₀ s)
      (hp : s.Permitted action) (hs : s.Step own cr3 offset action s') :
      Reachable own cr3 offset s₀ s'

end Running

/-- What holds of a running system whose memory was `m` when its clients started, with the
frames of `frames` free: translations are as they were, and every byte outside the free frames
and the kernel's own data is. No permitted action faults, the bytes of an outstanding run change
only by writes to it, and a write stores its byte, changes no other, and is read back. -/
structure Running.Isolated (own : Nat → Prop) (frames : FrameAllocator) (m : Memory)
    (cr3 offset : Nat) (s : Running) : Prop where
  translations : ∀ address, walk s.memory cr3 address = walk m cr3 address
  untouched : ∀ a, a / frameSize ∉ frames.freeSet → ¬ own a → s.memory a = m a
  served : ∀ action, s.Permitted action → ∃ s', s.Step own cr3 offset action s'
  alone : ∀ action s', s.Permitted action → s.Step own cr3 offset action s' →
    ∀ run ∈ s.session.outstanding, ¬ action.WritesTo run →
      ∀ i < run.size, s'.memory (run.byteAt i) = s.memory (run.byteAt i)
  written : ∀ run i byte s', s.Permitted (.write run i byte) →
    s.Step own cr3 offset (.write run i byte) s' →
      ¬ own (run.byteAt i) ∧ s'.memory = s.memory.store (run.byteAt i) [byte] ∧
        loadByte s'.memory cr3 (offset + run.byteAt i) = some byte

variable {fw : Firmware} {m m' m₀ : Memory} {handoff : Handoff} {map : List MemoryDescriptor}
  {p : Boot.Prepared} {bitmap : List (BitVec 64)} {frames : FrameAllocator} {info : BootInfo}
  {regions : List MemoryRegion} {own : Nat → Prop} {run : Run}

/-- What is fixed when the clients start: the frames that memory setup left free are mapped in
the window, and neither the tables nor the kernel's own data lie in them or in each other. -/
structure Handover (own : Nat → Prop) (frames : FrameAllocator) (m : Memory) (cr3 offset : Nat)
    (t : PageTables) : Prop where
  wf : frames.WF
  tables : t.WF
  memory_eq : ∀ a, t.InArena a → m a = t.memory a
  cr3_eq : cr3 = t.cr3Value
  mapped : ∀ f ∈ frames.freeSet, ∀ k < frameSize,
    walk m cr3 (offset + (f * frameSize + k)) = some ⟨f * frameSize + k, .readWrite⟩
  arena_free : ∀ a, t.InArena a → a / frameSize ∉ frames.freeSet
  arena_own : ∀ a, t.InArena a → ¬ own a
  own_free : ∀ a, own a → a / frameSize ∉ frames.freeSet

namespace Running

variable {cr3 offset : Nat} {t : PageTables} {s s' : Running} {action : Action}

/-- The invariant of a run: the clients own what they hold, and nothing has changed outside the
free frames and the kernel's own data. -/
structure Kept (own : Nat → Prop) (frames : FrameAllocator) (m : Memory) (s : Running) :
    Prop where
  owned : s.session.Owned frames
  untouched : ∀ a, a / frameSize ∉ frames.freeSet → ¬ own a → s.memory a = m a

private theorem Kept.walk_eq (h : Handover own frames m cr3 offset t) (hs : s.Kept own frames m)
    (address : Nat) : walk s.memory cr3 address = walk m cr3 address := by
  have hkept : ∀ a, t.InArena a → s.memory a = t.memory a := by
    intro a ha
    rw [hs.untouched a (h.arena_free a ha) (h.arena_own a ha), h.memory_eq a ha]
  rw [h.cr3_eq, h.tables.walk_congr hkept, h.tables.walk_congr h.memory_eq]

private theorem Kept.byteAt_free (hs : s.Kept own frames m) (hrun : run ∈ s.session.outstanding)
    {i : Nat} (hi : i < run.size) :
    ∃ g ∈ frames.freeSet, ∃ k < frameSize, run.byteAt i = g * frameSize + k := by
  obtain ⟨g, hg, k, hk, he⟩ := Run.byteAt_frame hi
  exact ⟨g, hs.owned.balanced.subset hrun hg, k, hk, he⟩

private theorem Kept.byteAt_mapped (h : Handover own frames m cr3 offset t)
    (hs : s.Kept own frames m) (hrun : run ∈ s.session.outstanding) {i : Nat}
    (hi : i < run.size) :
    walk s.memory cr3 (offset + run.byteAt i) = some ⟨run.byteAt i, .readWrite⟩ := by
  obtain ⟨g, hg, k, hk, he⟩ := hs.byteAt_free hrun hi
  rw [he, hs.walk_eq h]
  exact h.mapped g hg k hk

private theorem Kept.byteAt_div (hs : s.Kept own frames m) (hrun : run ∈ s.session.outstanding)
    {i : Nat} (hi : i < run.size) : run.byteAt i / frameSize ∈ frames.freeSet := by
  obtain ⟨g, hg, k, hk, he⟩ := hs.byteAt_free hrun hi
  have hdiv : (g * frameSize + k) / frameSize = g := by
    simp only [frameSize] at hk ⊢
    omega
  rwa [he, hdiv]

private theorem Kept.byteAt_not_own (h : Handover own frames m cr3 offset t)
    (hs : s.Kept own frames m) (hrun : run ∈ s.session.outstanding) {i : Nat}
    (hi : i < run.size) : ¬ own (run.byteAt i) :=
  fun ho ↦ h.own_free _ ho (hs.byteAt_div hrun hi)

private theorem Kept.storeByte_eq (h : Handover own frames m cr3 offset t)
    (hs : s.Kept own frames m) (hrun : run ∈ s.session.outstanding) {i : Nat}
    (hi : i < run.size) (byte : UInt8) :
    storeByte s.memory cr3 (offset + run.byteAt i) byte =
      some (s.memory.store (run.byteAt i) [byte]) :=
  storeByte_of_walk (hs.byteAt_mapped h hrun hi) rfl byte

private theorem store_byte_ne {memory : Memory} {a b : Nat} {byte : UInt8} (h : a ≠ b) :
    memory.store b [byte] a = memory a :=
  Memory.store_outside (by rw [List.length_singleton]; omega)

private theorem store_byte_self (memory : Memory) (a : Nat) (byte : UInt8) :
    memory.store a [byte] a = byte := by
  have hi : 0 < [byte].length := Nat.one_pos
  exact Memory.store_inside hi

private theorem Kept.served (h : Handover own frames m cr3 offset t) (hs : s.Kept own frames m)
    (hp : s.Permitted action) : ∃ s', s.Step own cr3 offset action s' := by
  cases action with
  | request req =>
    obtain ⟨r, session', hreq, -⟩ := hs.owned.step hp
    exact ⟨_, .request hreq fun _ _ ↦ rfl⟩
  | write run i byte => exact ⟨_, .write (hs.storeByte_eq h hp.1 hp.2 byte)⟩

private theorem Kept.step (h : Handover own frames m cr3 offset t) (hs : s.Kept own frames m)
    (hp : s.Permitted action) (hstep : s.Step own cr3 offset action s') :
    s'.Kept own frames m := by
  cases hstep with
  | request hreq helse =>
    obtain ⟨r, session', hreq', ho, -⟩ := hs.owned.step hp
    rw [hreq] at hreq'
    cases hreq'
    exact ⟨ho, fun a ha hown ↦ (helse a hown).trans (hs.untouched a ha hown)⟩
  | @write run i byte memory hstored =>
    obtain ⟨hrun, hi⟩ := hp
    rw [hs.storeByte_eq h hrun hi] at hstored
    cases hstored
    refine ⟨hs.owned, fun a ha hown ↦ ?_⟩
    have hne : a ≠ run.byteAt i := by
      rintro rfl
      exact ha (hs.byteAt_div hrun hi)
    exact (store_byte_ne hne).trans (hs.untouched a ha hown)

private theorem Kept.reachable (h : Handover own frames m cr3 offset t) {s₀ : Running}
    (h₀ : s₀.Kept own frames m) (hs : Reachable own cr3 offset s₀ s) : s.Kept own frames m := by
  induction hs with
  | start => exact h₀
  | step _ hp hstep ih => exact ih.step h hp hstep

private theorem Kept.alone (h : Handover own frames m cr3 offset t) (hs : s.Kept own frames m)
    (hp : s.Permitted action) (hstep : s.Step own cr3 offset action s')
    (hrun : run ∈ s.session.outstanding) (hother : ¬ action.WritesTo run) {i : Nat}
    (hi : i < run.size) : s'.memory (run.byteAt i) = s.memory (run.byteAt i) := by
  cases hstep with
  | request hreq helse => exact helse _ (hs.byteAt_not_own h hrun hi)
  | @write run' j byte memory hstored =>
    obtain ⟨hrun', hj⟩ := hp
    rw [hs.storeByte_eq h hrun' hj] at hstored
    cases hstored
    have hdisjoint := hs.owned.disjoint hrun hrun' fun he ↦ hother he.symm
    exact store_byte_ne (Run.byteAt_ne hdisjoint hi hj)

private theorem Kept.written (h : Handover own frames m cr3 offset t)
    (hs : s.Kept own frames m) {i : Nat} {byte : UInt8} (hp : s.Permitted (.write run i byte))
    (hstep : s.Step own cr3 offset (.write run i byte) s') :
    s'.memory = s.memory.store (run.byteAt i) [byte] ∧
      loadByte s'.memory cr3 (offset + run.byteAt i) = some byte := by
  have hkept := hs.step h hp hstep
  obtain ⟨hrun, hi⟩ := hp
  cases hstep with
  | write hstored =>
    rw [hs.storeByte_eq h hrun hi] at hstored
    cases hstored
    refine ⟨rfl, ?_⟩
    rw [loadByte_of_walk (hkept.byteAt_mapped h hrun hi)]
    exact congrArg some (store_byte_self _ _ _)

private theorem Kept.isolated (h : Handover own frames m cr3 offset t) (hs : s.Kept own frames m) :
    s.Isolated own frames m cr3 offset where
  translations := hs.walk_eq h
  untouched := hs.untouched
  served _ hp := hs.served h hp
  alone _ _ hp hstep _ hrun hother _ hi := hs.alone h hp hstep hrun hother hi
  written _ _ _ _ hp hstep :=
    ⟨hs.byteAt_not_own h hp.1 hp.2, (hs.written h hp hstep).1, (hs.written h hp hstep).2⟩

end Running

/-- The firmware reports the byte as free memory. -/
def Conventional (map : List MemoryDescriptor) (address : Nat) : Prop :=
  ∃ d ∈ map, d.ty = .conventional ∧ d.Covers address

private theorem freeFrame_spec (h : Delivered fw m m' p handoff map)
    (hvalid : validateMemoryMap handoff.regions = .ok ())
    (hsetup : setupMemory bitmap handoff.bootInfo handoff.regions = some (.ok frames))
    {a : Nat} (ha : a / frameSize ∈ frames.freeSet) :
    Conventional fw.finalMap a ∧
      ¬ (p.kernelPhysical ≤ a ∧ a < p.kernelPhysical + p.kernelSpan) := by
  obtain ⟨p', -, -, -, -, -, -, count, array, hconvert, -, hregions⟩ := loadAndStart_ok h.run
  obtain ⟨hinfo, -⟩ := loadAndStart_described h.run h.prepare
  obtain ⟨b, hset, -, -, hfree⟩ :=
    setupMemory_spec (validateMemoryMap_eq_ok_iff.mp hvalid) bitmap handoff.bootInfo
  rw [hsetup] at hset
  cases hset
  rw [hfree, Finset.mem_filter] at ha
  obtain ⟨-, husable, hunused⟩ := ha
  have hbyte : a / frameSize * frameSize + a % frameSize = a := by
    simp only [frameSize]
    omega
  have hmod : a % frameSize < frameSize := Nat.mod_lt _ (by decide)
  constructor
  · rw [hregions] at husable
    obtain ⟨d, hd, hty, hcovers⟩ := usableFrame_conventional hconvert husable
    have hc := hcovers _ hmod
    rw [hbyte] at hc
    exact ⟨d, hd, hty, hc⟩
  · rintro ⟨hlo, hhi⟩
    have hkernel : Overlaps p.kernelPhysical p.kernelSpan (a / frameSize) := by
      simp only [Overlaps, Nat.succ_mul]
      omega
    rw [hinfo] at hunused
    exact hunused (.inr (.inl hkernel))

private theorem Delivered.handover (h : Delivered fw m m' p handoff map)
    (hcover : Covered map fw.finalMap)
    (hkept : ∀ a, p.tables.InArena a ∨ p.stack ≤ a ∧ a < p.stack + kernelStackPages * pageSize →
      ¬ Conventional fw.finalMap a)
    (happart : ∀ a, p.tables.InArena a → ¬ Owns p a)
    (hvalid : handoff.bootInfo.validate handoff.regions = .ok ())
    (hbitmap : bitmap.length = bitmapWords)
    (hsetup : setupMemory bitmap handoff.bootInfo handoff.regions = some (.ok frames))
    (hm₀ : ∀ a, p.tables.InArena a → m₀ a = p.deliver handoff m' a) :
    Handover (Owns p) frames m₀ handoff.cr3 handoff.bootInfo.physicalMemoryOffset p.tables := by
  have hregions := (BootInfo.validate_eq_ok hvalid).1
  obtain ⟨-, -, -, -, -, -, hoffset, -⟩ := loadAndStart_ok h.run
  obtain ⟨segments, hready⟩ := prepareHandover_ok h.prepare
  obtain ⟨a, hset, hwf, -⟩ :=
    setupMemory_spec (validateMemoryMap_eq_ok_iff.mp hregions) bitmap handoff.bootInfo
  rw [hsetup] at hset
  cases hset
  have hmemory : ∀ a, p.tables.InArena a → m₀ a = p.tables.memory a := fun a ha ↦
    (hm₀ a ha).trans (h.arena_eq ha)
  have hwalk (address : Nat) : walk m₀ handoff.cr3 address = walk m' handoff.cr3 address := by
    rw [h.cr3_eq, hready.wf.walk_congr hmemory, hready.memory_eq]
  constructor
  · exact hwf
  · exact hready.wf
  · exact hmemory
  · exact h.cr3_eq
  · intro f hf k hk
    rw [hwalk, hoffset]
    exact freeFrame_mapped h.run h.map_eq hcover hregions hbitmap hsetup hf hk
  · intro a ha hf
    exact hkept a (.inl ha) (freeFrame_spec h hregions hsetup hf).1
  · exact happart
  · rintro a (himage | hstack) hf
    · exact (freeFrame_spec h hregions hsetup hf).2 himage
    · exact hkept a (.inr hstack) (freeFrame_spec h hregions hsetup hf).1

/-- When the firmware reports neither the page tables nor the kernel's stack as free memory, and
gave the tables pages of their own, then whatever the kernel's start left in memory outside the
tables, in every state that clients reach by allocating, freeing and writing to what they hold,
in any order, they are isolated. -/
theorem owners_isolated (h : Delivered fw m m' p handoff map)
    (hcover : Covered map fw.finalMap)
    (hkept : ∀ a, p.tables.InArena a ∨ p.stack ≤ a ∧ a < p.stack + kernelStackPages * pageSize →
      ¬ Conventional fw.finalMap a)
    (happart : ∀ a, p.tables.InArena a → ¬ Owns p a)
    (hreceive : receive (p.deliver handoff m') handoff.cr3 handoff.bootInfoAddress =
      some (some info, regions))
    (hvalid : info.validate regions = .ok ()) (hbitmap : bitmap.length = bitmapWords)
    (hsetup : setupMemory bitmap info regions = some (.ok frames))
    (hm₀ : ∀ a, p.tables.InArena a → m₀ a = p.deliver handoff m' a) :
    ∀ s, Running.Reachable (Owns p) handoff.cr3 info.physicalMemoryOffset
        ⟨m₀, ⟨frames, []⟩⟩ s →
      s.Isolated (Owns p) frames m₀ handoff.cr3 info.physicalMemoryOffset := by
  rw [h.receive_eq] at hreceive
  cases hreceive
  have hhandover := h.handover hcover hkept happart hvalid hbitmap hsetup hm₀
  have h₀ : Running.Kept (Owns p) frames m₀ ⟨m₀, ⟨frames, []⟩⟩ :=
    ⟨⟨hhandover.wf, rfl, Ledger.balanced_nil _⟩, fun _ _ _ ↦ rfl⟩
  exact fun s hs ↦ (h₀.reachable hhandover hs).isolated hhandover

/-- On the large machine, whose firmware put the arena and the stack in loader data. -/
theorem owners_isolated_large_machine :
    ∃ p handoff m' info regions frames,
      Delivered (largeMachine 0x600000) (fun _ ↦ 0) m' p handoff largeMap ∧
      receive (p.deliver handoff m') handoff.cr3 handoff.bootInfoAddress =
        some (some info, regions) ∧
      setupMemory frameBitmap info regions = some (.ok frames) ∧
      ∀ s, Running.Reachable (Owns p) handoff.cr3 info.physicalMemoryOffset
          ⟨p.deliver handoff m', ⟨frames, []⟩⟩ s →
        s.Isolated (Owns p) frames (p.deliver handoff m') handoff.cr3
          info.physicalMemoryOffset := by
  obtain ⟨p, handoff, m', h, hs, hk, hspan, hvalid⟩ := delivered_largeMachine
  obtain ⟨frames, hsetup, -⟩ :=
    setupMemory_prepared (BootInfo.validate_eq_ok hvalid).1 frameBitmap handoff.bootInfo
  have hgranted := prepareHandover_granted h.prepare
  have hbase : 0x200000 = p.tables.arenaBase := Option.some.inj hgranted.arena_eq
  have harena : ∀ a, p.tables.InArena a → 0x200000 ≤ a ∧ a < 0x300000 := by
    rintro a ⟨hlo, hhi⟩
    rw [hgranted.frames_eq] at hhi
    simp only [arenaFrameCount, pageSize] at hhi
    omega
  -- both lie in the eight megabytes of loader data
  have hkept : ∀ a, p.tables.InArena a ∨
      p.stack ≤ a ∧ a < p.stack + kernelStackPages * pageSize → ¬ Conventional largeMap a := by
    intro a ha hc
    have hlt : a < 0x800000 := by
      rcases ha with ha | ⟨-, ha⟩
      · have := harena a ha
        omega
      · simp only [hs, kernelStackPages, pageSize] at ha
        omega
    obtain ⟨d, hd, hty, hlo, -⟩ := hc
    simp only [largeMap, List.mem_cons, List.not_mem_nil, or_false] at hd
    rcases hd with rfl | rfl | rfl
    · cases hty
    · simp only at hlo
      omega
    · cases hty
  have happart : ∀ a, p.tables.InArena a → ¬ Owns p a := by
    intro a ha hown
    have := harena a ha
    simp only [Owns, hk, hspan, hs, kernelStackPages, pageSize] at hown
    omega
  have hbitmap : frameBitmap.length = bitmapWords := by
    rw [frameBitmap, List.length_replicate]
  exact ⟨p, handoff, m', _, _, frames, h, h.receive_eq, hsetup, owners_isolated h covered_largeMap
    hkept happart h.receive_eq hvalid hbitmap hsetup fun _ _ ↦ rfl⟩

end LokoOS.Kernel
