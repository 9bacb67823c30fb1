import LokoOS.Base.Transcript
import LokoOS.Memory.FromMemoryMap

/-!
# Calls on the allocator

The mutators of `kernel/loko-memory/src/lib.rs:184–301` as calls with 64-bit arguments, and
what each of them does to a set of free frames. The abstract allocator knows two sets only,
the managed and the free frames; the bitmap, the count and the cursor refine it.
-/

namespace LokoOS.Memory
open LokoOS.Base FrameAllocator

/-- A 64-bit argument. -/
abbrev U64 : Type := Fin (2 ^ 64)

/-- A call that changes an allocator. -/
inductive Call where
  | release (frame : U64)
  | reserve (frame : U64)
  | reserveRange (start len : U64)
  | allocate
  | allocateContiguous (count : U64)
  | free (frame : U64)
  | freeContiguous (frame count : U64)
  deriving DecidableEq

/-- Make a call; an allocation answers with the first frame of the run. -/
def Call.apply : Call → Proc FrameAllocator MemoryError (Option Nat)
  | .release frame => do
    FrameAllocator.release frame
    pure none
  | .reserve frame => do
    FrameAllocator.reserve frame
    pure none
  | .reserveRange start len => do
    FrameAllocator.reserveRange start len
    pure none
  | .allocate => do
    let f ← FrameAllocator.allocate
    pure (some f)
  | .allocateContiguous count => do
    let f ← FrameAllocator.allocateContiguous count
    pure (some f)
  | .free frame => do
    FrameAllocator.free frame
    pure none
  | .freeContiguous frame count => do
    FrameAllocator.freeContiguous frame count
    pure none

/-- How many frames a call asks for. -/
def Call.wanted : Call → Option Nat
  | .allocate => some 1
  | .allocateContiguous count => some count
  | _ => none

/-- A call can be served, given the managed and the free frames. -/
def Call.Possible (managed free : Finset Nat) : Call → Prop
  | .release frame | .reserve frame => frame.val ∈ managed
  | .reserveRange _ _ => True
  | .allocate => ∃ s, runOf s 1 ⊆ free
  | .allocateContiguous count => 0 < count.val ∧ ∃ s, runOf s count ⊆ free
  | .free frame => frame.val ∈ managed ∧ frame.val ∉ free
  | .freeContiguous frame count => ∀ g ∈ runOf frame count, g ∈ managed ∧ g ∉ free

/-- What a call answers and leaves free, given the managed and the free frames. Only a call
that cannot be served fails, and then it leaves the frames as they are. -/
inductive Effect (managed free : Finset Nat) :
    Call → Except MemoryError (Option Nat) → Finset Nat → Prop
  | released {f : U64} (h : f.val ∈ managed) :
      Effect managed free (.release f) (.ok none) (insert f.val free)
  | reserved {f : U64} (h : f.val ∈ managed) :
      Effect managed free (.reserve f) (.ok none) (free.erase f)
  | rangeReserved {start len : U64} : Effect managed free (.reserveRange start len) (.ok none)
      (free.filter fun f ↦ ¬ Overlaps start len f)
  | allocated {c : Call} {count s : Nat} (hc : c.wanted = some count) (hpos : 0 < count)
      (h : runOf s count ⊆ free) : Effect managed free c (.ok (some s)) (free \ runOf s count)
  | freed {f : U64} (h : f.val ∈ managed) (h' : f.val ∉ free) :
      Effect managed free (.free f) (.ok none) (insert f.val free)
  | runFreed {f count : U64} (h : ∀ g ∈ runOf f count, g ∈ managed ∧ g ∉ free) :
      Effect managed free (.freeContiguous f count) (.ok none) (free ∪ runOf f count)
  | failed {c : Call} {e : MemoryError} (h : ¬ c.Possible managed free) :
      Effect managed free c (.error e) free

/-! ### The allocator refines the sets -/

namespace FrameAllocator

variable {a a' : FrameAllocator} {c : Call} {f : Nat}

private theorem run_answer {x : Proc FrameAllocator MemoryError Unit}
    (h : x a = some (.ok (), a')) :
    (x >>= fun _ ↦ (pure none : Proc FrameAllocator MemoryError (Option Nat))) a =
      some (.ok none, a') := by
  rw [Proc.run_bind_ok h, Proc.run_pure]

private theorem apply_allocation {count : Nat} (h : a.WF) (hc : c.wanted = some count)
    (happly : c.apply = allocateContiguous count >>= fun f ↦ pure (some f))
    (hpossible : c.Possible a.managed a.freeSet → 0 < count ∧ ∃ s, runOf s count ⊆ a.freeSet) :
    ∃ answer a', c.apply a = some (answer, a') ∧ a.Becomes a' a'.freeSet ∧
      Effect a.managed a.freeSet c answer a'.freeSet ∧ ((∃ e, answer = .error e) → a' = a) := by
  rw [happly]
  rcases allocateContiguous_spec h count with ⟨s, a', ha, hpos, hsub, hb⟩ | ⟨ha, hnone⟩
  · refine ⟨.ok (some s), a', ?_, hb.congr hb.freeSet_eq.symm, ?_, ?_⟩
    · rw [Proc.run_bind_ok ha, Proc.run_pure]
    · rw [hb.freeSet_eq]
      exact .allocated hc hpos hsub
    · rintro ⟨e, he⟩
      cases he
  · refine ⟨.error .outOfMemory, a, Proc.run_bind_error ha, h.becomes_self, .failed ?_, fun _ ↦ rfl⟩
    intro hc
    rcases hpossible hc with ⟨hpos, s, hs⟩
    exact hnone hpos s hs

/-- Every call on a well-formed allocator returns, keeps it well formed, and has on its sets
the effect it is meant to have; after an error the allocator is what it was. -/
theorem apply_effect (h : a.WF) (c : Call) :
    ∃ answer a', c.apply a = some (answer, a') ∧ a.Becomes a' a'.freeSet ∧
      Effect a.managed a.freeSet c answer a'.freeSet ∧ ((∃ e, answer = .error e) → a' = a) := by
  have hok {a' : FrameAllocator} : (∃ e, (.ok none : Except MemoryError (Option Nat)) = .error e) →
      a' = a := by
    rintro ⟨e, he⟩
    cases he
  cases c with
  | release frame =>
    by_cases hf : frame.val ∈ a.managed
    · rcases release_of_mem h hf with ⟨a', ha, hb⟩
      refine ⟨_, a', run_answer ha, hb.congr hb.freeSet_eq.symm, ?_, hok⟩
      rw [hb.freeSet_eq]
      exact .released hf
    · exact ⟨_, a, Proc.run_bind_error (release_of_notMem hf), h.becomes_self, .failed hf,
        fun _ ↦ rfl⟩
  | reserve frame =>
    by_cases hf : frame.val ∈ a.managed
    · rcases reserve_of_mem h hf with ⟨a', ha, hb⟩
      refine ⟨_, a', run_answer ha, hb.congr hb.freeSet_eq.symm, ?_, hok⟩
      rw [hb.freeSet_eq]
      exact .reserved hf
    · exact ⟨_, a, Proc.run_bind_error (reserve_of_notMem hf), h.becomes_self, .failed hf,
        fun _ ↦ rfl⟩
  | reserveRange start len =>
    rcases reserveRange_spec h start len with ⟨a', ha, hb⟩
    refine ⟨_, a', run_answer ha, hb.congr hb.freeSet_eq.symm, ?_, hok⟩
    rw [hb.freeSet_eq]
    exact .rangeReserved
  | allocate => exact apply_allocation h rfl rfl fun hs ↦ ⟨Nat.one_pos, hs⟩
  | allocateContiguous count => exact apply_allocation h rfl rfl id
  | free frame =>
    by_cases hf : frame.val ∈ a.managed
    · by_cases hfree : frame.val ∈ a.freeSet
      · exact ⟨_, a, Proc.run_bind_error (free_of_mem_freeSet h hfree), h.becomes_self,
          .failed fun hc ↦ hc.2 hfree, fun _ ↦ rfl⟩
      · rcases free_of_taken h hf hfree with ⟨a', ha, hb⟩
        refine ⟨_, a', run_answer ha, hb.congr hb.freeSet_eq.symm, ?_, hok⟩
        rw [hb.freeSet_eq]
        exact .freed hf hfree
    · exact ⟨_, a, Proc.run_bind_error (free_of_notMem hf), h.becomes_self,
        .failed fun hc ↦ hf hc.1, fun _ ↦ rfl⟩
  | freeContiguous frame count =>
    by_cases ht : ∀ g ∈ runOf frame count, a.Taken g
    · rcases freeContiguous_of_taken h ht with ⟨a', ha, hb⟩
      refine ⟨_, a', run_answer ha, hb.congr hb.freeSet_eq.symm, ?_, hok⟩
      rw [hb.freeSet_eq]
      exact .runFreed ht
    · have hu : frame.val ≤ u64Max := by
        rw [u64Max]
        omega
      rcases freeContiguous_of_not_taken h hu ht with ⟨e, he⟩
      exact ⟨_, a, Proc.run_bind_error he, h.becomes_self, .failed ht, fun _ ↦ rfl⟩

/-! ### Runs -/

/-- Make calls in order, whatever they answer. -/
def run (a : FrameAllocator) (calls : List Call) :
    Option (List (Call × Except MemoryError (Option Nat)) × FrameAllocator) :=
  Proc.transcript Call.apply calls a

/-- A run of calls on a well-formed allocator returns and keeps it well formed. -/
theorem WF.run (h : a.WF) (calls : List Call) :
    ∃ t a', a.run calls = some (t, a') ∧ a.Becomes a' a'.freeSet := by
  apply Proc.transcript_total (fun a' ↦ a.Becomes a' a'.freeSet) _ calls h.becomes_self
  intro c s hs
  rcases apply_effect hs.wf c with ⟨answer, s', happly, hb, -⟩
  exact ⟨answer, s', happly, hs.trans hb⟩

/-- The allocators that the two constructors make. -/
inductive Built : FrameAllocator → Prop
  | new {bitmap : List (BitVec 64)} {base frames : Nat} {a : FrameAllocator}
      (hb : base + frames ≤ 2 ^ 52) (h : FrameAllocator.new bitmap base frames = .ok a) : Built a
  | fromMemoryMap {bitmap : List (BitVec 64)} {regions : List BootProtocol.MemoryRegion}
      {a : FrameAllocator} (hr : ∀ r ∈ regions, r.start ≤ u64Max ∧ r.len ≤ u64Max)
      (h : FrameAllocator.fromMemoryMap bitmap regions = some (.ok a)) : Built a

/-- The allocators that calls on a built allocator reach. -/
def Reachable (a : FrameAllocator) : Prop :=
  ∃ a₀ calls t, Built a₀ ∧ a₀.run calls = some (t, a)

/-- A built allocator is well formed. -/
theorem Built.wf (h : Built a) : a.WF := by
  cases h with
  | @new bitmap base frames a hb h =>
    have hcover : frames ≤ 64 * bitmap.length := by
      unfold FrameAllocator.new at h
      split at h
      · cases h
      · next hsize =>
        have hle := le_divCeil_mul frames (show 0 < 64 by decide)
        unfold bitmapWordsFor at hsize
        omega
    rcases new_spec hcover hb with ⟨a', hnew, hwf, -⟩
    rw [h] at hnew
    cases hnew
    exact hwf
  | @fromMemoryMap bitmap regions a hr h =>
    rcases fromMemoryMap_total hr bitmap with ⟨a', hmap, hwf, -⟩
    rw [h] at hmap
    cases hmap
    exact hwf

/-- A reachable allocator is well formed. -/
theorem Reachable.wf (h : Reachable a) : a.WF := by
  rcases h with ⟨a₀, calls, t, hbuilt, hrun⟩
  rcases hbuilt.wf.run calls with ⟨t', a', hrun', hb⟩
  rw [hrun] at hrun'
  cases hrun'
  exact hb.wf

/-- Ten frames from the third on, of which two have been released. -/
theorem reachable_two_free : Reachable ⟨[0xFFFFFFFFFFFFFFF3#64], 3, 10, 8, 0⟩ := by
  have hnew : FrameAllocator.new [0#64] 3 10 = .ok ⟨[BitVec.allOnes 64], 3, 10, 10, 0⟩ := rfl
  exact ⟨_, [.release 5, .release 6], _, .new (by decide) hnew, rfl⟩

end FrameAllocator
end LokoOS.Memory
