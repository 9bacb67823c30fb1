import LokoOS.Memory.Calls
import LokoOS.Memory.FirstFit

/-!
# The allocator is next fit

`kernel/loko-memory/src/lib.rs:184–301` against a next-fit allocator on a set of frames. The
abstract allocator has no bitmap and no count: it says which run an allocation returns, which
error a call gives, and where the next search starts. The concrete one answers every sequence
of calls as it does.
-/

namespace LokoOS.Memory
open LokoOS.Base LokoOS.BootProtocol FrameAllocator

/-- A next-fit allocator: the frames from `base` on, which of them are free, and how far from
the base the next search starts. -/
structure NextFit where
  base : Nat
  frames : Nat
  free : Finset Nat
  cursor : Nat

namespace NextFit

/-- The managed frames. -/
def managed (s : NextFit) : Finset Nat := Finset.Ico s.base (s.base + s.frames)

/-- The least index from `start` on of a free run. -/
def fitFrom (s : NextFit) (count start : Nat) : Option Nat :=
  (List.range' start (s.frames - start)).find? fun k ↦ decide (runOf (s.base + k) count ⊆ s.free)

/-- The least index from the cursor on, or else of all. -/
def fit (s : NextFit) (count : Nat) : Option Nat :=
  (s.fitFrom count s.cursor).or (s.fitFrom count 0)

/-- Take the run that fits next. -/
def take (s : NextFit) (count : Nat) : Except MemoryError (Option Nat) × NextFit :=
  if count = 0 then (.error .outOfMemory, s)
  else
    match s.fit count with
    | none => (.error .outOfMemory, s)
    | some k => (.ok (some (s.base + k)),
        { s with free := s.free \ runOf (s.base + k) count, cursor := k + count })

/-- Whether a managed frame is taken. -/
def isAllocated (s : NextFit) (f : Nat) : Option Bool :=
  if f ∈ s.managed then some (decide (f ∉ s.free)) else none

/-- A frame can be given back: it is managed and not free. -/
def Held (s : NextFit) (f : Nat) : Prop := f ∈ s.managed ∧ f ∉ s.free

instance (s : NextFit) (f : Nat) : Decidable (s.Held f) := inferInstanceAs (Decidable (_ ∧ _))

/-- Give back a run, all of it or nothing; the first frame that is not held decides the error. -/
def giveBack (s : NextFit) (f count : Nat) : Except MemoryError (Option Nat) × NextFit :=
  match (List.range' f count).find? fun g ↦ decide (¬ s.Held g) with
  | some g => (.error (if g ∈ s.managed then .notAllocated else .outOfRange), s)
  | none => (.ok none,
      { s with
        free := s.free ∪ runOf f count
        cursor := if count = 0 then s.cursor else min s.cursor (f - s.base) })

/-- What a call answers and leaves. -/
def step : Call → NextFit → Except MemoryError (Option Nat) × NextFit
  | .release f, s =>
    if f.val ∈ s.managed then (.ok none, { s with free := insert f.val s.free })
    else (.error .outOfRange, s)
  | .reserve f, s =>
    if f.val ∈ s.managed then (.ok none, { s with free := s.free.erase f.val })
    else (.error .outOfRange, s)
  | .reserveRange start len, s =>
    (.ok none, { s with free := s.free.filter fun f ↦ ¬ Overlaps start len f })
  | .allocate, s => s.take 1
  | .allocateContiguous count, s => s.take count
  | .free f, s => s.giveBack f 1
  | .freeContiguous f count, s => s.giveBack f count

variable {s : NextFit} {count start k : Nat}

private theorem fitFrom_eq_some (hfree : s.free ⊆ s.managed) (hpos : 0 < count) :
    s.fitFrom count start = some k ↔ start ≤ k ∧ runOf (s.base + k) count ⊆ s.free ∧
      ∀ j, start ≤ j → j < k → ¬ runOf (s.base + j) count ⊆ s.free := by
  rw [fitFrom, List.find?_range'_eq_some]
  simp only [decide_eq_true_eq, List.mem_range'_1, Bool.not_eq_true', decide_eq_false_iff_not]
  constructor
  · rintro ⟨hsub, ⟨hle, -⟩, hleast⟩
    exact ⟨hle, hsub, hleast⟩
  · rintro ⟨hle, hsub, hleast⟩
    have hmem : s.base + k ∈ s.managed := hfree (hsub (mem_runOf.mpr ⟨Nat.le_refl _, by omega⟩))
    rw [managed, Finset.mem_Ico] at hmem
    exact ⟨hsub, ⟨hle, by omega⟩, hleast⟩

private theorem fitFrom_eq_none (hfree : s.free ⊆ s.managed) (hpos : 0 < count) :
    s.fitFrom count start = none ↔ ∀ j, start ≤ j → ¬ runOf (s.base + j) count ⊆ s.free := by
  rw [fitFrom, List.find?_range'_eq_none]
  simp only [Bool.not_eq_true', decide_eq_false_iff_not]
  constructor
  · intro hnone j hj hsub
    have hmem : s.base + j ∈ s.managed := hfree (hsub (mem_runOf.mpr ⟨Nat.le_refl _, by omega⟩))
    rw [managed, Finset.mem_Ico] at hmem
    exact hnone j hj (by omega) hsub
  · intro hnone j hj _
    exact hnone j hj

end NextFit

namespace FrameAllocator

variable {a a' : FrameAllocator} {f count index k : Nat}

/-- The next-fit allocator that an allocator is, whatever its bitmap and its count. -/
def nextFit (a : FrameAllocator) : NextFit := ⟨a.base, a.frames, a.freeSet, a.cursor⟩

private theorem Becomes.nextFit_eq {free : Finset Nat} {cursor : Nat} (h : a.Becomes a' free)
    (hc : a'.cursor = cursor) : a'.nextFit = ⟨a.base, a.frames, free, cursor⟩ := by
  rw [nextFit, h.base_eq, h.frames_eq, h.freeSet_eq, hc]

/-! ### The search -/

private theorem runOf_subset_iff (hpos : 0 < count) : runOf (a.base + k) count ⊆ a.freeSet ↔
    k + count ≤ a.frames ∧ ∀ j, k ≤ j → j < k + count → a.bit j = false := by
  have hin (j : Nat) : a.base + j ∈ runOf (a.base + k) count ↔ k ≤ j ∧ j < k + count := by
    rw [mem_runOf]
    omega
  constructor
  · intro hsub
    have hclear : ∀ j, k ≤ j → j < k + count → j < a.frames ∧ a.bit j = false :=
      fun j hj hjc ↦ base_add_mem_freeSet.mp (hsub ((hin j).mpr ⟨hj, hjc⟩))
    refine ⟨?_, fun j hj hjc ↦ (hclear j hj hjc).2⟩
    have := (hclear (k + count - 1) (by omega) (by omega)).1
    omega
  · rintro ⟨hle, hclear⟩ g hg
    obtain ⟨hlo, hhi⟩ := mem_runOf.mp hg
    rw [← Nat.add_sub_cancel' (show a.base ≤ g by omega)]
    exact base_add_mem_freeSet.mpr ⟨by omega, hclear _ (by omega) (by omega)⟩

private theorem le_of_searchFrom (h : a.searchFrom count index = some (some k)) : index ≤ k := by
  fun_induction a.searchFrom count index with
  | case1 => cases h
  | case2 => cases h
  | case3 =>
    cases h
    exact Nat.le_refl _
  | case4 index hadd hle blocker hb ih =>
    have hblocker := firstAllocatedIn_bounds hb
    have := ih h
    omega
  | case5 => cases h

private theorem searchFrom_eq (h : a.WF) (hpos : 0 < count) (hc : count ≤ a.frames)
    (hi : index ≤ a.frames) : a.searchFrom count index = some (a.nextFit.fitFrom count index) := by
  have hfree : a.nextFit.free ⊆ a.nextFit.managed := a.freeSet_subset_managed
  rcases searchFrom_spec h hc index hi with ⟨k, hs, hle, hclear⟩ | ⟨hs, hnone⟩
  · rw [hs]
    refine congrArg some (((NextFit.fitFrom_eq_some hfree hpos).mpr ⟨le_of_searchFrom hs,
      (runOf_subset_iff hpos).mpr ⟨hle, hclear⟩, fun j hj hjk hsub ↦ ?_⟩).symm)
    obtain ⟨i, hji, hij, hset⟩ := searchFrom_first h index hs hj hjk
    rw [((runOf_subset_iff hpos).mp hsub).2 i hji hij] at hset
    cases hset
  · rw [hs]
    refine congrArg some (((NextFit.fitFrom_eq_none hfree hpos).mpr fun j hj hsub ↦ ?_).symm)
    obtain ⟨hle, hclear⟩ := (runOf_subset_iff hpos).mp hsub
    obtain ⟨i, hji, hij, hset⟩ := hnone j hj hle
    rw [hclear i hji hij] at hset
    cases hset

private theorem allocateContiguous_eq (h : a.WF) (hpos : 0 < count) (hc : count ≤ a.frames) :
    allocateContiguous count a =
      match a.nextFit.fit count with
      | none => some (.error .outOfMemory, a)
      | some k => takeWindow k count a := by
  have hcursor : a.nextFit.fit count =
      (a.nextFit.fitFrom count a.cursor).or (a.nextFit.fitFrom count 0) := rfl
  unfold allocateContiguous
  rw [Proc.run_bind_ok (Proc.run_get a), if_neg (by omega), searchFrom_eq h hpos hc h.cursor_le,
    searchFrom_eq h hpos hc (Nat.zero_le _), Proc.run_bind_ok (Proc.run_lift_some _ _), hcursor]
  cases a.nextFit.fitFrom count a.cursor with
  | some k => rfl
  | none => cases a.nextFit.fitFrom count 0 <;> rfl

private theorem takeWindow_cursor (h : takeWindow k count a = some (.ok f, a')) :
    a'.cursor = k + count := by
  obtain ⟨_, a₁, -, h⟩ := Proc.bind_eq_ok.mp h
  obtain ⟨_, a₂, -, h⟩ := Proc.bind_eq_ok.mp h
  rw [Proc.run_bind_ok rfl, Proc.run_bind_ok rfl] at h
  obtain ⟨-, rfl⟩ := Proc.lift_eq_ok.mp h
  rfl

/-- An allocation answers as next fit does. -/
theorem allocateContiguous_nextFit (h : a.WF) (count : Nat) :
    ∃ a', (allocateContiguous count >>= fun f ↦ pure (some f)) a =
        some ((a.nextFit.take count).1, a') ∧
      a'.nextFit = (a.nextFit.take count).2 ∧ a'.WF := by
  have hfree : a.nextFit.free ⊆ a.nextFit.managed := a.freeSet_subset_managed
  rcases allocateContiguous_spec h count with ⟨f, a', ha, hpos, hsub, hb⟩ | ⟨ha, hnone⟩
  · have hc : count ≤ a.frames := by
      have hle := Finset.card_le_card (hsub.trans a.freeSet_subset_managed)
      rwa [card_runOf, card_managed] at hle
    have htake := ha
    rw [allocateContiguous_eq h hpos hc] at htake
    rw [Proc.run_bind_ok ha, NextFit.take, if_neg (by omega)]
    cases hfit : a.nextFit.fit count with
    | none =>
      rw [hfit] at htake
      cases htake
    | some k =>
      rw [hfit] at htake
      obtain rfl := takeWindow_start htake
      exact ⟨a', rfl, hb.nextFit_eq (takeWindow_cursor htake), hb.wf⟩
  · rw [Proc.run_bind_error ha, NextFit.take]
    split
    · exact ⟨a, rfl, rfl, h⟩
    · next hne =>
      have hall : ∀ start, a.nextFit.fitFrom count start = none := fun start ↦
        (NextFit.fitFrom_eq_none hfree (by omega)).mpr fun j _ ↦ hnone (by omega) _
      rw [NextFit.fit, hall, hall]
      exact ⟨a, rfl, rfl, h⟩

/-! ### Giving back -/

private theorem checkAllocated_eq (h : a.WF) (g : Nat) : checkAllocated g a =
    some (if a.nextFit.Held g then .ok ()
      else .error (if g ∈ a.nextFit.managed then .notAllocated else .outOfRange), a) := by
  have hheld : a.nextFit.Held g ↔ a.Taken g := Iff.rfl
  have hmanaged : g ∈ a.nextFit.managed ↔ g ∈ a.managed := Iff.rfl
  simp only [hheld, hmanaged, Taken, checkAllocated, Proc.run_bind, Proc.run_get]
  by_cases hg : g ∈ a.managed
  · simp only [indexOf_of_mem hg, Proc.run_orFail_some, h.get_of_mem hg, Proc.run_lift_some, hg,
      true_and, if_true]
    by_cases hfree : g ∈ a.freeSet <;> simp [hfree]
  · simp [indexOf_of_notMem hg, hg]

private theorem checks_eq (h : a.WF) (hf : f ≤ u64Max) (count : Nat) :
    Proc.forRange count (fun i ↦ do
      let g ← Proc.lift (addU64 f i)
      checkAllocated g) a =
      some (match (List.range' f count).find? fun g ↦ decide (¬ a.nextFit.Held g) with
        | some g => .error (if g ∈ a.nextFit.managed then .notAllocated else .outOfRange)
        | none => .ok (), a) := by
  induction count with
  | zero => rfl
  | succ n ih =>
    rw [Proc.forRange, List.range'_1_concat, List.find?_append]
    cases hfirst : (List.range' f n).find? fun g ↦ decide (¬ a.nextFit.Held g) with
    | some g =>
      rw [hfirst] at ih
      rw [Proc.run_bind_error ih]
      rfl
    | none =>
      rw [hfirst] at ih
      -- what was passed is managed, so the next number is one of 64 bits
      have hadd : f + n ≤ u64Max := by
        cases n with
        | zero => exact hf
        | succ n =>
          rw [List.find?_range'_eq_none] at hfirst
          have hheld := hfirst (f + n) (by omega) (by omega)
          simp only [decide_not, Bool.not_not, decide_eq_true_eq] at hheld
          have hm := mem_managed.mp hheld.1
          have hbound := h.bounded
          rw [u64Max]
          omega
      rw [Proc.run_bind_ok ih, addU64_of_le hadd, Proc.run_bind_ok (Proc.run_lift_some _ _),
        checkAllocated_eq h, Option.none_or]
      by_cases hheld : a.nextFit.Held (f + n)
      · simp [hheld]
      · simp [hheld]

private theorem free_cursor (h : free f a = some (.ok (), a')) :
    a'.base = a.base ∧ a'.cursor = min a.cursor (f - a.base) := by
  obtain ⟨_, a₁, hget, h⟩ := Proc.bind_eq_ok.mp h
  cases hget
  obtain ⟨index, a₂, hfound, h⟩ := Proc.bind_eq_ok.mp h
  obtain ⟨hindex, rfl⟩ := Proc.orFail_eq_ok.mp hfound
  obtain ⟨taken, a₃, htaken, h⟩ := Proc.bind_eq_ok.mp h
  obtain ⟨-, rfl⟩ := Proc.lift_eq_ok.mp htaken
  split at h
  · cases h
  · obtain ⟨_, a₄, hset, h⟩ := Proc.bind_eq_ok.mp h
    obtain ⟨_, a₅, hsub, h⟩ := Proc.bind_eq_ok.mp h
    cases h
    have hbase :=
      (apart_base.subAllocated 1 _ _ _ hsub).trans (apart_base.set index false _ _ _ hset)
    have hcursor :=
      (apart_cursor.subAllocated 1 _ _ _ hsub).trans (apart_cursor.set index false _ _ _ hset)
    have hoff : index = f - a.base := by
      unfold indexOf at hindex
      split at hindex
      · cases hindex
      · split at hindex
        · cases hindex
        · exact (Option.some.inj hindex).symm
    dsimp only
    split
    · refine ⟨hbase, ?_⟩
      dsimp only
      omega
    · exact ⟨hbase, by omega⟩

private theorem frees_cursor (h : Proc.forRange count (fun i ↦ do
      let g ← Proc.lift (addU64 f i)
      free g) a = some (.ok (), a')) :
    a'.cursor = if count = 0 then a.cursor else min a.cursor (f - a.base) := by
  refine (Proc.forRange_ok_invariant (fun i (s : FrameAllocator) ↦ s.base = a.base ∧
    s.cursor = if i = 0 then a.cursor else min a.cursor (f - a.base)) ?_ ⟨rfl, rfl⟩ h).2
  intro i s s' _ hs hfree
  obtain ⟨-, hfree⟩ := Proc.addU64_bind_eq_ok.mp hfree
  obtain ⟨hbase, hcursor⟩ := free_cursor hfree
  rw [hcursor, hs.1, hs.2]
  refine ⟨hbase.trans hs.1, ?_⟩
  split <;> split <;> omega

/-- Freeing a run answers as giving it back does. -/
theorem freeContiguous_nextFit (h : a.WF) (hf : f ≤ u64Max) (count : Nat) :
    ∃ a', (freeContiguous f count >>= fun _ ↦ pure none) a =
        some ((a.nextFit.giveBack f count).1, a') ∧
      a'.nextFit = (a.nextFit.giveBack f count).2 ∧ a'.WF := by
  have hchecks := checks_eq h hf count
  rw [NextFit.giveBack]
  cases hfirst : (List.range' f count).find? fun g ↦ decide (¬ a.nextFit.Held g) with
  | some g =>
    rw [hfirst] at hchecks
    refine ⟨a, ?_, rfl, h⟩
    rw [freeContiguous, Proc.run_bind_error (Proc.run_bind_error hchecks)]
  | none =>
    rw [hfirst] at hchecks
    have ht : ∀ g ∈ runOf f count, a.Taken g := by
      intro g hg
      obtain ⟨hlo, hhi⟩ := mem_runOf.mp hg
      have hheld : a.nextFit.Held g := by
        simpa using List.find?_range'_eq_none.mp hfirst g hlo hhi
      exact hheld
    obtain ⟨a', hfrees, hb⟩ := frees_of_taken h ht
    refine ⟨a', ?_, hb.nextFit_eq (frees_cursor hfrees), hb.wf⟩
    rw [freeContiguous, Proc.run_bind_ok ((Proc.run_bind_ok hchecks).trans hfrees)]
    rfl

/-- Freeing a frame answers as giving back a run of one does. -/
theorem free_nextFit (h : a.WF) (f : Nat) :
    ∃ a', (free f >>= fun _ ↦ pure none) a = some ((a.nextFit.giveBack f 1).1, a') ∧
      a'.nextFit = (a.nextFit.giveBack f 1).2 ∧ a'.WF := by
  have hheld : a.nextFit.Held f ↔ a.Taken f := Iff.rfl
  have hmanaged : f ∈ a.nextFit.managed ↔ f ∈ a.managed := Iff.rfl
  rw [NextFit.giveBack, List.range'_one, List.find?_singleton]
  by_cases ht : a.Taken f
  · obtain ⟨a', hfree, hb⟩ := free_of_taken h ht.1 ht.2
    have hone : a.nextFit.free ∪ runOf f 1 = insert f a.freeSet := by
      rw [runOf, Nat.Ico_succ_singleton, Finset.union_comm, ← Finset.insert_eq]
      rfl
    rw [if_neg (by simpa [hheld] using ht)]
    refine ⟨a', ?_, (hb.nextFit_eq (free_cursor hfree).2).trans ?_, hb.wf⟩
    · rw [Proc.run_bind_ok hfree, Proc.run_pure]
    · rw [hone]
      rfl
  · rw [if_pos (by simpa [hheld] using ht)]
    by_cases hf : f ∈ a.managed
    · have hfree : f ∈ a.freeSet := by_contra fun hn ↦ ht ⟨hf, hn⟩
      refine ⟨a, ?_, rfl, h⟩
      rw [Proc.run_bind_error (free_of_mem_freeSet h hfree)]
      dsimp only
      rw [if_pos (hmanaged.mpr hf)]
    · refine ⟨a, ?_, rfl, h⟩
      rw [Proc.run_bind_error (free_of_notMem hf)]
      dsimp only
      rw [if_neg (mt hmanaged.mp hf)]

/-! ### Every call -/

/-- Each call answers and leaves what it does on the next-fit allocator. -/
theorem apply_nextFit (h : a.WF) (c : Call) :
    ∃ a', c.apply a = some ((NextFit.step c a.nextFit).1, a') ∧
      a'.nextFit = (NextFit.step c a.nextFit).2 ∧ a'.WF := by
  have hanswer {x : Proc FrameAllocator MemoryError Unit} {a' : FrameAllocator}
      (hx : x a = some (.ok (), a')) :
      (x >>= fun _ ↦ (pure none : Proc FrameAllocator MemoryError (Option Nat))) a =
        some (.ok none, a') := by
    rw [Proc.run_bind_ok hx, Proc.run_pure]
  have hmanaged (f : Nat) : f ∈ a.nextFit.managed ↔ f ∈ a.managed := Iff.rfl
  cases c with
  | release f =>
    rw [NextFit.step]
    by_cases hf : f.val ∈ a.managed
    · obtain ⟨a', ha, hb⟩ := release_of_mem h hf
      rw [if_pos ((hmanaged _).mpr hf)]
      exact ⟨a', hanswer ha, hb.nextFit_eq (apart_cursor.release _ _ _ _ ha), hb.wf⟩
    · rw [if_neg (mt (hmanaged _).mp hf)]
      exact ⟨a, Proc.run_bind_error (release_of_notMem hf), rfl, h⟩
  | reserve f =>
    rw [NextFit.step]
    by_cases hf : f.val ∈ a.managed
    · obtain ⟨a', ha, hb⟩ := reserve_of_mem h hf
      rw [if_pos ((hmanaged _).mpr hf)]
      exact ⟨a', hanswer ha, hb.nextFit_eq (apart_cursor.reserve _ _ _ _ ha), hb.wf⟩
    · rw [if_neg (mt (hmanaged _).mp hf)]
      exact ⟨a, Proc.run_bind_error (reserve_of_notMem hf), rfl, h⟩
  | reserveRange start len =>
    obtain ⟨a', ha, hb⟩ := reserveRange_spec h start len
    exact ⟨a', hanswer ha, hb.nextFit_eq (apart_cursor.reserveRange _ _ _ _ _ ha), hb.wf⟩
  | allocate => exact allocateContiguous_nextFit h 1
  | allocateContiguous count => exact allocateContiguous_nextFit h count
  | free f =>
    exact free_nextFit h f
  | freeContiguous f count =>
    have hu : f.val ≤ u64Max := by
      rw [u64Max]
      omega
    exact freeContiguous_nextFit h hu count

/-- A run of calls on a well-formed allocator gives the transcript of next fit. -/
theorem WF.run_eq_replay (h : a.WF) (calls : List Call) :
    ∃ a', a.run calls = some ((Proc.replay NextFit.step calls a.nextFit).1, a') ∧
      a'.nextFit = (Proc.replay NextFit.step calls a.nextFit).2 ∧ a'.WF :=
  Proc.transcript_refines WF nextFit NextFit.step (fun c _ hs ↦ apply_nextFit hs c) calls h

/-- Any reachable allocator answers any sequence of calls as next fit on its free frames does:
each allocation returns the least run that fits from the cursor on, or else of all, each failure
the error of the first frame at fault, and every query between them what the abstract allocator
says. -/
theorem Reachable.run_nextFit (h : Reachable a) (calls : List Call) :
    ∃ a', a.run calls = some ((Proc.replay NextFit.step calls a.nextFit).1, a') ∧
      a'.nextFit = (Proc.replay NextFit.step calls a.nextFit).2 ∧
      (∀ f, a'.isAllocated f =
        some ((Proc.replay NextFit.step calls a.nextFit).2.isAllocated f)) ∧
      a'.freeFrames = some (Proc.replay NextFit.step calls a.nextFit).2.free.card := by
  obtain ⟨a', hrun, hview, hwf⟩ := h.wf.run_eq_replay calls
  refine ⟨a', hrun, hview, fun f ↦ ?_, ?_⟩
  · rw [hwf.isAllocated_eq, ← hview]
    rfl
  · rw [hwf.freeFrames_eq, ← hview]
    rfl

/-- Of the ten frames of which two are free, the search goes on where the last run ended. -/
theorem run_nextFit_two_free :
    ∃ a', run ⟨[0xFFFFFFFFFFFFFFF3#64], 3, 10, 8, 0⟩ [.free 9, .allocateContiguous 2, .allocate] =
        some ([(.free 9, .ok none), (.allocateContiguous 2, .ok (some 5)),
          (.allocate, .ok (some 9))], a') ∧ a'.freeFrames = some 0 := by
  obtain ⟨a', hrun, -, -, hfree⟩ :=
    reachable_two_free.run_nextFit [.free 9, .allocateContiguous 2, .allocate]
  exact ⟨a', hrun.trans (by rfl), hfree.trans (by rfl)⟩

end FrameAllocator
end LokoOS.Memory
