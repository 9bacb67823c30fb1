import LokoOS.Memory.FromMemoryMap
import LokoOS.Base.Ledger

/-!
# Frame ownership over whole runs

Clients of the allocator in `kernel/loko-memory/src/lib.rs`. The allocator is built from a
memory map, some frames and ranges are reserved, and then any number of clients allocate
and free in any order. A session is the allocator together with the runs handed out and
not given back. Its free frames and outstanding runs form a ledger, and every permitted
request is a step of that ledger or leaves it alone.
-/

namespace LokoOS.Memory
open LokoOS.Base LokoOS.BootProtocol FrameAllocator

/-- A reservation made before any client runs. -/
inductive Reservation where
  | frame (f : Nat)
  | range (start len : Nat)
  deriving DecidableEq, Repr

/-- Make one reservation; an unmanaged frame is ignored. -/
def Reservation.apply : Reservation → Proc FrameAllocator MemoryError Unit
  | .frame f => do
    let _ ← Proc.attempt (δ := MemoryError) (reserve f)
    pure ()
  | .range start len => reserveRange start len

/-- The frames that a reservation covers. -/
def Reservation.Covers : Reservation → Nat → Prop
  | .frame g, f => f = g
  | .range start len, f => Overlaps start len f

instance (r : Reservation) (f : Nat) : Decidable (r.Covers f) :=
  match r with
  | .frame g => inferInstanceAs (Decidable (f = g))
  | .range start len => inferInstanceAs (Decidable (Overlaps start len f))

/-- Frame `f` was reserved by one of the reservations. -/
def Reserved (reservations : List Reservation) (f : Nat) : Prop :=
  ∃ r ∈ reservations, r.Covers f

instance (reservations : List Reservation) (f : Nat) : Decidable (Reserved reservations f) :=
  inferInstanceAs (Decidable (∃ r ∈ reservations, _))

/-- The allocator before any client runs: built from the map, then reserved. -/
def prepare (bitmap : List (BitVec 64)) (regions : List MemoryRegion)
    (reservations : List Reservation) : Option (Except MemoryError FrameAllocator) :=
  match fromMemoryMap bitmap regions with
  | none => none
  | some (.error e) => some (.error e)
  | some (.ok a) =>
    (Proc.forEach reservations Reservation.apply a).map fun (r, a) ↦ r.map fun _ ↦ a

private theorem reservations_spec {a : FrameAllocator} (h : a.WF)
    (reservations : List Reservation) :
    ∃ a', Proc.forEach reservations Reservation.apply a = some (.ok (), a') ∧
      a.Becomes a' (a.freeSet.filter fun f ↦ ¬ Reserved reservations f) := by
  refine Proc.forEach_total (fun done s ↦
    a.Becomes s (a.freeSet.filter fun f ↦ ¬ Reserved done f)) ?_ ?_
  · intro done r s _ hs
    have hstep : ∃ s', r.apply s = some (.ok (), s') ∧
        s.Becomes s' (s.freeSet.filter fun f ↦ ¬ r.Covers f) := by
      cases r with
      | frame g =>
        obtain ⟨res, s', hr, hs'⟩ := attempt_reserve hs.wf g
        refine ⟨s', by rw [Reservation.apply, Proc.run_bind_ok hr, Proc.run_pure], hs'.congr ?_⟩
        ext f
        rw [Finset.mem_erase, Finset.mem_filter]
        exact and_comm
      | range start len => exact reserveRange_spec hs.wf start len
    obtain ⟨s', hr, hs'⟩ := hstep
    refine ⟨s', hr, (hs.trans hs').congr ?_⟩
    rw [hs.freeSet_eq, Finset.filter_filter]
    apply Finset.filter_congr
    intro f _
    simp only [Reserved, List.mem_append, List.mem_singleton, or_and_right, exists_or,
      exists_eq_left, not_or]
  · apply h.becomes_self.congr
    rw [Finset.filter_true_of_mem]
    rintro f _ ⟨r, hr, -⟩
    simp at hr

private theorem prepare_spec {regions : List MemoryRegion} (hv : ValidMemoryMap regions)
    (bitmap : List (BitVec 64)) (reservations : List Reservation) :
    ∃ a, prepare bitmap regions reservations = some (.ok a) ∧ a.WF ∧
      a.managed = Finset.range (managedFrames bitmap regions) ∧
      a.freeSet = a.managed.filter fun f ↦ UsableFrame regions f ∧ ¬ Reserved reservations f := by
  obtain ⟨a₀, hmap, hwf, hbase, hframes, hfree⟩ := fromMemoryMap_spec hv bitmap
  obtain ⟨a, hres, hb⟩ := reservations_spec hwf reservations
  refine ⟨a, ?_, hb.wf, ?_, ?_⟩
  · rw [prepare, hmap]
    simp only [hres, Option.map_some]
    rfl
  · rw [hb.managed_eq, managed, hbase, hframes, Finset.range_eq_Ico, Nat.zero_add]
  · rw [hb.freeSet_eq, hfree, Finset.filter_filter, hb.managed_eq]

/-! ### Sessions -/

/-- A run of frames handed out by the allocator. -/
structure Run where
  start : Nat
  count : Nat
  deriving DecidableEq, Repr

/-- The frames of a run. -/
def Run.frames (run : Run) : Finset Nat := runOf run.start run.count

/-- The allocator and the runs handed out and not given back. -/
structure Session where
  allocator : FrameAllocator
  outstanding : List Run

/-- What a client may ask for. -/
inductive Request where
  | allocate
  | allocateContiguous (count : Nat)
  | free (frame : Nat)
  | freeContiguous (frame count : Nat)
  deriving DecidableEq, Repr

/-- The request gives frames back. -/
def Request.IsFree : Request → Prop
  | .free _ | .freeContiguous _ _ => True
  | _ => False

namespace Session

/-- A client frees exactly a run that is outstanding. -/
def Permitted (s : Session) : Request → Prop
  | .free frame => ⟨frame, 1⟩ ∈ s.outstanding
  | .freeContiguous frame count => ⟨frame, count⟩ ∈ s.outstanding
  | _ => True

/-- The session after an allocation: a returned run is outstanding. -/
def afterAllocate (s : Session) (count : Nat) :
    Option (Except MemoryError Nat × FrameAllocator) → Option (Except MemoryError Unit × Session)
  | none => none
  | some (.ok f, a) => some (.ok (), ⟨a, ⟨f, count⟩ :: s.outstanding⟩)
  | some (.error e, a) => some (.error e, ⟨a, s.outstanding⟩)

/-- The session after a free: the run is no longer outstanding. -/
def afterFree (s : Session) (run : Run) :
    Option (Except MemoryError Unit × FrameAllocator) → Option (Except MemoryError Unit × Session)
  | none => none
  | some (.ok (), a) => some (.ok (), ⟨a, s.outstanding.erase run⟩)
  | some (.error e, a) => some (.error e, ⟨a, s.outstanding⟩)

/-- Serve one request. -/
def step (s : Session) : Request → Option (Except MemoryError Unit × Session)
  | .allocate => s.afterAllocate 1 (FrameAllocator.allocate s.allocator)
  | .allocateContiguous count =>
    s.afterAllocate count (FrameAllocator.allocateContiguous count s.allocator)
  | .free frame => s.afterFree ⟨frame, 1⟩ (FrameAllocator.free frame s.allocator)
  | .freeContiguous frame count =>
    s.afterFree ⟨frame, count⟩ (FrameAllocator.freeContiguous frame count s.allocator)

/-- The sessions that permitted requests, in any order, can reach. -/
inductive Reachable (s₀ : Session) : Session → Prop
  | start : Reachable s₀ s₀
  | step {s s' : Session} {req : Request} {r : Except MemoryError Unit} (h : Reachable s₀ s)
      (hp : s.Permitted req) (hs : s.step req = some (r, s')) : Reachable s₀ s'

/-- The ledger behind a session. -/
def ledger (s : Session) : Ledger Run Nat := ⟨s.allocator.freeSet, s.outstanding⟩

/-- The session invariant: the allocator is well formed, manages what `a₀` manages, and
its ledger is balanced for the free frames of `a₀`. -/
structure Owned (a₀ : FrameAllocator) (s : Session) : Prop where
  wf : s.allocator.WF
  managed_eq : s.allocator.managed = a₀.managed
  balanced : Ledger.Balanced Run.frames a₀.freeSet s.ledger

variable {a₀ : FrameAllocator} {s s' : Session}

private theorem Owned.taken (h : s.Owned a₀) {run : Run} (hr : run ∈ s.outstanding) :
    ∀ f ∈ run.frames, s.allocator.Taken f := by
  intro f hf
  constructor
  · rw [h.managed_eq]
    exact a₀.freeSet_subset_managed (h.balanced.subset hr hf)
  · exact Finset.disjoint_left.mp (h.balanced.apart run hr) hf

private theorem allocate_step (h : s.Owned a₀) (count : Nat) :
    ∃ r s', s.afterAllocate count (allocateContiguous count s.allocator) = some (r, s') ∧
      s'.Owned a₀ ∧ (s'.ledger = s.ledger ∨ Ledger.Step Run.frames s.ledger s'.ledger) := by
  rcases allocateContiguous_spec h.wf count with ⟨f, a', ha, -, hsub, hb⟩ | ⟨ha, -⟩
  · let s' : Session := ⟨a', ⟨f, count⟩ :: s.outstanding⟩
    have hl : s'.ledger = s.ledger.take Run.frames ⟨f, count⟩ := by
      simp only [ledger, Ledger.take, s', hb.freeSet_eq, Run.frames]
    have hstep : Ledger.Step Run.frames s.ledger s'.ledger := by
      rw [hl]
      exact .take s.ledger ⟨f, count⟩ hsub
    exact ⟨.ok (), s', by rw [ha]; rfl,
      ⟨hb.wf, hb.managed_eq.trans h.managed_eq, h.balanced.step hstep⟩, .inr hstep⟩
  · exact ⟨.error .outOfMemory, s, by rw [ha]; rfl, h, .inl rfl⟩

private theorem free_step (h : s.Owned a₀) {run : Run} (hr : run ∈ s.outstanding)
    {result : Option (Except MemoryError Unit × FrameAllocator)} {a' : FrameAllocator}
    (hres : result = some (.ok (), a'))
    (hb : s.allocator.Becomes a' (s.allocator.freeSet ∪ run.frames)) :
    ∃ s', s.afterFree run result = some (.ok (), s') ∧ s'.Owned a₀ ∧
      Ledger.Step Run.frames s.ledger s'.ledger := by
  let s' : Session := ⟨a', s.outstanding.erase run⟩
  have hl : s'.ledger = s.ledger.give Run.frames run := by
    simp only [ledger, Ledger.give, s', hb.freeSet_eq, Run.frames]
  have hstep : Ledger.Step Run.frames s.ledger s'.ledger := by
    rw [hl]
    exact .give s.ledger run hr
  exact ⟨s', by rw [hres]; rfl,
    ⟨hb.wf, hb.managed_eq.trans h.managed_eq, h.balanced.step hstep⟩, hstep⟩

/-- A permitted request is served without a panic, keeps the invariant and is a step of
the ledger or leaves it alone; a permitted free succeeds. -/
theorem Owned.step (h : s.Owned a₀) {req : Request} (hp : s.Permitted req) :
    ∃ r s', s.step req = some (r, s') ∧ s'.Owned a₀ ∧
      (s'.ledger = s.ledger ∨ Ledger.Step Run.frames s.ledger s'.ledger) ∧
      (req.IsFree → r = .ok ()) := by
  cases req with
  | allocate =>
    obtain ⟨r, s', hs, ho, hl⟩ := allocate_step h 1
    exact ⟨r, s', hs, ho, hl, False.elim⟩
  | allocateContiguous count =>
    obtain ⟨r, s', hs, ho, hl⟩ := allocate_step h count
    exact ⟨r, s', hs, ho, hl, False.elim⟩
  | free frame =>
    have hm : frame ∈ runOf frame 1 := mem_runOf.mpr ⟨Nat.le_refl _, by omega⟩
    obtain ⟨hin, hout⟩ := h.taken hp frame hm
    obtain ⟨a', ha, hb⟩ := free_of_taken h.wf hin hout
    have hset : insert frame s.allocator.freeSet = s.allocator.freeSet ∪ runOf frame 1 := by
      rw [runOf, Nat.Ico_succ_singleton, Finset.union_comm, Finset.insert_eq]
    obtain ⟨s', hs, ho, hl⟩ := free_step h hp ha (hb.congr hset)
    exact ⟨.ok (), s', hs, ho, .inr hl, fun _ ↦ rfl⟩
  | freeContiguous frame count =>
    obtain ⟨a', ha, hb⟩ := freeContiguous_of_taken h.wf (h.taken hp)
    obtain ⟨s', hs, ho, hl⟩ := free_step h hp ha hb
    exact ⟨.ok (), s', hs, ho, .inr hl, fun _ ↦ rfl⟩

/-- The invariant holds in every reachable session. -/
theorem Owned.reachable {s₀ : Session} (h₀ : s₀.Owned a₀) (h : Reachable s₀ s) :
    s.Owned a₀ := by
  induction h with
  | start => exact h₀
  | step _ hp hs ih =>
    obtain ⟨r, s', hs', ho, -⟩ := ih.step hp
    rw [hs] at hs'
    cases hs'
    exact ho

end Session

/-- What holds of a session of clients of the allocator prepared from `regions` and
`reservations`: outstanding runs are disjoint and lie in usable memory that was never
reserved, requests do not panic and permitted frees succeed, and the free frames are the
usable managed frames not reserved, less the outstanding runs. -/
structure Session.Exact (regions : List MemoryRegion) (reservations : List Reservation)
    (s : Session) : Prop where
  disjoint : s.outstanding.Pairwise fun r r' ↦ Disjoint r.frames r'.frames
  usable : ∀ run ∈ s.outstanding, ∀ f ∈ run.frames,
    UsableFrame regions f ∧ ¬ Reserved reservations f
  served : ∀ req, s.Permitted req →
    ∃ r s', s.step req = some (r, s') ∧ (req.IsFree → r = .ok ())
  count : ∃ free, s.allocator.freeFrames = some free ∧
    free + (s.outstanding.map Run.count).sum =
      (s.allocator.managed.filter fun f ↦
        UsableFrame regions f ∧ ¬ Reserved reservations f).card

/-- On every map the validator accepts, with any bitmap and any reservations, preparation
succeeds and every session that any interleaving of client requests reaches is exact. -/
theorem frame_ownership {regions : List MemoryRegion} (hv : validateMemoryMap regions = .ok ())
    (bitmap : List (BitVec 64)) (reservations : List Reservation) :
    ∃ a₀, prepare bitmap regions reservations = some (.ok a₀) ∧
      ∀ s, Session.Reachable ⟨a₀, []⟩ s → s.Exact regions reservations := by
  obtain ⟨a₀, hprep, hwf, -, hfree⟩ :=
    prepare_spec (validateMemoryMap_eq_ok_iff.mp hv) bitmap reservations
  refine ⟨a₀, hprep, fun s hs ↦ ?_⟩
  have h₀ : Session.Owned a₀ ⟨a₀, []⟩ := ⟨hwf, rfl, Ledger.balanced_nil _⟩
  have h := h₀.reachable hs
  refine ⟨h.balanced.disjoint, ?_, ?_, ?_⟩
  · intro run hrun f hf
    have hm := h.balanced.subset hrun hf
    rw [hfree] at hm
    exact (Finset.mem_filter.mp hm).2
  · intro req hp
    obtain ⟨r, s', hstep, -, -, hr⟩ := h.step hp
    exact ⟨r, s', hstep, hr⟩
  · refine ⟨s.allocator.freeSet.card, h.wf.freeFrames_eq, ?_⟩
    have hcard : (fun run : Run ↦ run.frames.card) = Run.count := by
      funext run
      exact card_runOf run.start run.count
    have hcount := h.balanced.count
    rw [hcard, hfree, ← h.managed_eq] at hcount
    exact hcount

/-- A map with one usable region of four frames and the first frame reserved. -/
theorem frame_ownership_four_frames :
    ∃ a₀, prepare [0#64] [⟨0, 16384, .usable, 0⟩] [.frame 0] = some (.ok a₀) ∧
      ∀ s, Session.Reachable ⟨a₀, []⟩ s →
        s.Exact [⟨0, 16384, .usable, 0⟩] [.frame 0] :=
  frame_ownership (by decide) [0#64] [.frame 0]

end LokoOS.Memory
