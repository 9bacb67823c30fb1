import LokoOS.Memory.FreeSet

/-!
# What each allocator operation does

One specification for each operation of `kernel/loko-memory/src/lib.rs:184–301`, stated on
the set of free frames. The operations on frames outside the managed range, and the
failing ones, leave the allocator exactly as it was.
-/

namespace LokoOS.Memory
open LokoOS.Base LokoOS.BootProtocol

namespace FrameAllocator

variable {a a' a'' : FrameAllocator} {f i count : Nat} {s t : Finset Nat}

/-- An allocator that satisfies the invariant has become itself. -/
theorem WF.becomes_self (h : a.WF) : a.Becomes a a.freeSet :=
  ⟨h, rfl, rfl, rfl, fun _ _ ↦ rfl⟩

/-- Two changes in a row compose. -/
theorem Becomes.trans (h : a.Becomes a' s) (h' : a'.Becomes a'' t) : a.Becomes a'' t where
  wf := h'.wf
  base_eq := h'.base_eq.trans h.base_eq
  frames_eq := h'.frames_eq.trans h.frames_eq
  freeSet_eq := h'.freeSet_eq
  beyond i hi := (h'.beyond i (by rw [h.frames_eq]; exact hi)).trans (h.beyond i hi)

/-- A change keeps the managed range. -/
theorem Becomes.managed_eq (h : a.Becomes a' s) : a'.managed = a.managed := by
  rw [managed, managed, h.base_eq, h.frames_eq]

/-- The change is to any set equal to the given one. -/
theorem Becomes.congr (h : a.Becomes a' s) (he : s = t) : a.Becomes a' t := he ▸ h

/-! ### Setting and clearing one bit -/

private theorem freeSet_set_true {bitmap : List (BitVec 64)}
    (hb : ∀ j, ({ a with bitmap := bitmap } : FrameAllocator).bit j =
      if j = i then true else a.bit j) :
    ({ a with bitmap := bitmap } : FrameAllocator).freeSet = a.freeSet.erase (a.base + i) := by
  ext f
  rw [Finset.mem_erase, mem_freeSet, mem_freeSet, hb]
  by_cases h : f - a.base = i
  · rw [if_pos h]
    constructor
    · rintro ⟨-, h⟩
      cases h
    · rintro ⟨hne, ⟨hl, -⟩, -⟩
      omega
  · rw [if_neg h]
    constructor
    · rintro ⟨hr, hc⟩
      exact ⟨by omega, hr, hc⟩
    · rintro ⟨-, hr, hc⟩
      exact ⟨hr, hc⟩

private theorem freeSet_set_false {bitmap : List (BitVec 64)} (hi : i < a.frames)
    (hb : ∀ j, ({ a with bitmap := bitmap } : FrameAllocator).bit j =
      if j = i then false else a.bit j) :
    ({ a with bitmap := bitmap } : FrameAllocator).freeSet = insert (a.base + i) a.freeSet := by
  ext f
  rw [Finset.mem_insert, mem_freeSet, mem_freeSet, hb]
  by_cases h : f - a.base = i
  · rw [if_pos h]
    constructor
    · rintro ⟨⟨hl, -⟩, -⟩
      change a.base ≤ f at hl
      exact .inl (by omega)
    · rintro (he | ⟨hr, -⟩)
      · exact ⟨by change a.base ≤ f ∧ f < a.base + a.frames; omega, rfl⟩
      · exact ⟨hr, rfl⟩
  · rw [if_neg h]
    constructor
    · rintro ⟨hr, hc⟩
      exact .inr ⟨hr, hc⟩
    · rintro (he | hr)
      · omega
      · exact hr

private theorem becomes_of_bits {b : FrameAllocator} (h : a.WF)
    (hsame : b.base = a.base ∧ b.frames = a.frames) (hlen : b.bitmap.length = a.bitmap.length)
    (hcursor : b.cursor ≤ a.frames) (hfree : b.freeSet = s)
    (hcount : b.allocated + s.card = a.frames) (hbeyond : ∀ j, a.frames ≤ j → b.bit j = a.bit j) :
    a.Becomes b s where
  wf := by
    constructor
    · rw [hsame.2, hlen]
      exact h.covered
    · rw [hsame.1, hsame.2]
      exact h.bounded
    · rw [hfree, hsame.2]
      exact hcount
    · rw [hsame.2]
      exact hcursor
  base_eq := hsame.1
  frames_eq := hsame.2
  freeSet_eq := hfree
  beyond := hbeyond

private theorem Becomes.setCursor (h : a.Becomes a' s) {cursor : Nat} (hc : cursor ≤ a'.frames) :
    a.Becomes { a' with cursor := cursor } s where
  wf := ⟨h.wf.covered, h.wf.bounded, h.wf.counted, hc⟩
  base_eq := h.base_eq
  frames_eq := h.frames_eq
  freeSet_eq := h.freeSet_eq
  beyond := h.beyond

private theorem clear_spec (h : a.WF) (hf : f ∈ a.managed) (ht : f ∉ a.freeSet) :
    ∃ bitmap a', set (f - a.base) false a = some (.ok (), { a with bitmap := bitmap }) ∧
      subAllocated 1 { a with bitmap := bitmap } = some (.ok (), a') ∧
      a.Becomes a' (insert f a.freeSet) := by
  have hm := mem_managed.mp hf
  have hi : f - a.base < a.frames := by omega
  obtain ⟨bitmap, hset, hlen, hbits⟩ := set_eq false (h.div_lt hi)
  have hfree := freeSet_set_false hi hbits
  rw [show a.base + (f - a.base) = f by omega] at hfree
  have hcard := Finset.card_insert_of_notMem ht
  have hle := Finset.card_le_card (Finset.insert_subset hf a.freeSet_subset_managed)
  rw [card_managed] at hle
  have hcount := h.counted
  refine ⟨bitmap, { a with bitmap := bitmap, allocated := a.allocated - 1 }, hset, ?_, ?_⟩
  · simp only [subAllocated, Proc.run_bind, Proc.run_get,
      subU64_of_le (show 1 ≤ a.allocated by omega), Proc.run_lift_some, Proc.run_modify]
  · apply becomes_of_bits h
    · exact ⟨rfl, rfl⟩
    · exact hlen
    · exact h.cursor_le
    · exact hfree
    · change a.allocated - 1 + (insert f a.freeSet).card = a.frames
      omega
    · intro j hj
      exact (hbits j).trans (if_neg (by omega))

/-! ### Release and reserve -/

private theorem run_of_mem {α : Type} (h : a.WF) (hf : f ∈ a.managed)
    (rest : Nat → Bool → Proc FrameAllocator MemoryError α) :
    (do
      let a ← Proc.get
      let index ← Proc.orFail (a.indexOf f) .outOfRange
      let taken ← Proc.lift (a.get index)
      rest index taken : Proc FrameAllocator MemoryError α) a =
        rest (f - a.base) (decide (f ∉ a.freeSet)) a := by
  simp only [Proc.run_bind, Proc.run_get, indexOf_of_mem hf, Proc.run_orFail_some,
    h.get_of_mem hf, Proc.run_lift_some]

private theorem run_of_notMem {α : Type} (hf : f ∉ a.managed)
    (rest : Nat → Bool → Proc FrameAllocator MemoryError α) :
    (do
      let a ← Proc.get
      let index ← Proc.orFail (a.indexOf f) .outOfRange
      let taken ← Proc.lift (a.get index)
      rest index taken : Proc FrameAllocator MemoryError α) a =
        some (.error .outOfRange, a) := by
  simp only [Proc.run_bind, Proc.run_get, indexOf_of_notMem hf, Proc.run_orFail_none]

/-- Releasing a managed frame makes it free. -/
theorem release_of_mem (h : a.WF) (hf : f ∈ a.managed) :
    ∃ a', release f a = some (.ok (), a') ∧ a.Becomes a' (insert f a.freeSet) := by
  rw [release, run_of_mem h hf]
  by_cases hin : f ∈ a.freeSet
  · refine ⟨a, ?_, h.becomes_self.congr (Finset.insert_eq_self.mpr hin).symm⟩
    rw [if_neg (by simpa using hin), Proc.run_pure]
  · obtain ⟨bitmap, a', hset, hsub, hb⟩ := clear_spec h hf hin
    refine ⟨a', ?_, hb⟩
    rw [if_pos (by simpa using hin), Proc.run_bind_ok hset, hsub]

/-- Releasing an unmanaged frame is an error that changes nothing. -/
theorem release_of_notMem (hf : f ∉ a.managed) :
    release f a = some (.error .outOfRange, a) := run_of_notMem hf _

/-- Reserving a managed frame makes it unavailable. -/
theorem reserve_of_mem (h : a.WF) (hf : f ∈ a.managed) :
    ∃ a', reserve f a = some (.ok (), a') ∧ a.Becomes a' (a.freeSet.erase f) := by
  rw [reserve, run_of_mem h hf]
  have hm := mem_managed.mp hf
  have hi : f - a.base < a.frames := by omega
  by_cases hin : f ∈ a.freeSet
  · obtain ⟨bitmap, hset, hlen, hbits⟩ := set_eq true (h.div_lt hi)
    have hfree := freeSet_set_true hbits
    rw [show a.base + (f - a.base) = f by omega] at hfree
    have hcard := Finset.card_erase_add_one hin
    have hcount := h.counted
    have hbound := h.bounded
    have hu : a.allocated + 1 ≤ u64Max := by
      simp only [u64Max]
      omega
    refine ⟨{ a with bitmap := bitmap, allocated := a.allocated + 1 }, ?_, ?_⟩
    · rw [if_pos (by simpa using hin), Proc.run_bind_ok hset]
      simp only [addAllocated, Proc.run_bind, Proc.run_get, addU64_of_le hu, Proc.run_lift_some,
        Proc.run_modify]
    · apply becomes_of_bits h
      · exact ⟨rfl, rfl⟩
      · exact hlen
      · exact h.cursor_le
      · exact hfree
      · change a.allocated + 1 + (a.freeSet.erase f).card = a.frames
        omega
      · intro j hj
        exact (hbits j).trans (if_neg (by omega))
  · refine ⟨a, ?_, h.becomes_self.congr (Finset.erase_eq_of_notMem hin).symm⟩
    rw [if_neg (by simpa using hin), Proc.run_pure]

/-- Reserving an unmanaged frame is an error that changes nothing. -/
theorem reserve_of_notMem (hf : f ∉ a.managed) :
    reserve f a = some (.error .outOfRange, a) := run_of_notMem hf _

/-- An ignored `reserve` removes the frame from the free set, managed or not. -/
theorem attempt_reserve (h : a.WF) (f : Nat) :
    ∃ r a', Proc.attempt (δ := MemoryError) (reserve f) a = some (.ok r, a') ∧
      a.Becomes a' (a.freeSet.erase f) := by
  by_cases hf : f ∈ a.managed
  · obtain ⟨a', hr, hb⟩ := reserve_of_mem h hf
    exact ⟨.ok (), a', by rw [Proc.run_attempt, hr]; rfl, hb⟩
  · have hnot : f ∉ a.freeSet := fun hm ↦ hf (a.freeSet_subset_managed hm)
    refine ⟨.error .outOfRange, a, by rw [Proc.run_attempt, reserve_of_notMem hf]; rfl, ?_⟩
    exact h.becomes_self.congr (Finset.erase_eq_of_notMem hnot).symm

/-- An ignored `release` frees the frame if it is managed. -/
theorem attempt_release (h : a.WF) (f : Nat) :
    ∃ r a', Proc.attempt (δ := MemoryError) (release f) a = some (.ok r, a') ∧
      a.Becomes a' (a.freeSet ∪ a.managed.filter (· = f)) := by
  by_cases hf : f ∈ a.managed
  · obtain ⟨a', hr, hb⟩ := release_of_mem h hf
    refine ⟨.ok (), a', by rw [Proc.run_attempt, hr]; rfl, hb.congr ?_⟩
    rw [Finset.filter_eq' a.managed f, if_pos hf, Finset.union_comm, Finset.insert_eq]
  · refine ⟨.error .outOfRange, a, by rw [Proc.run_attempt, release_of_notMem hf]; rfl, ?_⟩
    apply h.becomes_self.congr
    rw [Finset.filter_eq' a.managed f, if_neg hf, Finset.union_empty]

/-- The page of frame `f` overlaps the bytes `[start, start + len)`. -/
def Overlaps (start len f : Nat) : Prop :=
  0 < len ∧ start < (f + 1) * frameSize ∧ f * frameSize < start + len

instance (start len f : Nat) : Decidable (Overlaps start len f) :=
  inferInstanceAs (Decidable (_ ∧ _ ∧ _))

/-- Reserving a byte range removes exactly the overlapping frames from the free set. -/
theorem reserveRange_spec (h : a.WF) (start len : Nat) :
    ∃ a', reserveRange start len a = some (.ok (), a') ∧
      a.Becomes a' (a.freeSet.filter fun f ↦ ¬ Overlaps start len f) := by
  by_cases hl : len = 0
  · refine ⟨a, by rw [reserveRange, if_pos hl, Proc.run_pure], h.becomes_self.congr ?_⟩
    rw [Finset.filter_true_of_mem]
    intro f _ ho
    exact absurd ho.1 (by omega)
  · rw [reserveRange, if_neg hl]
    let first := FrameNumber.containing start
    let last := FrameNumber.containing (saturatingAdd start (len - 1))
    obtain ⟨a', hloop, hb⟩ := Proc.forRange_total (n := last + 1 - first)
      (f := fun i ↦ do
        let _ ← Proc.attempt (δ := MemoryError) (reserve (first + i))
        pure ())
      (fun i s ↦ a.Becomes s (a.freeSet.filter fun f ↦ ¬ (first ≤ f ∧ f < first + i)))
      (by
        intro i s hi hs
        obtain ⟨r, s', hr, hs'⟩ := attempt_reserve hs.wf (first + i)
        refine ⟨s', by rw [Proc.run_bind_ok hr, Proc.run_pure], (hs.trans hs').congr ?_⟩
        rw [hs.freeSet_eq]
        ext f
        simp only [Finset.mem_erase, Finset.mem_filter]
        constructor
        · rintro ⟨hne, hm, hn⟩
          exact ⟨hm, by omega⟩
        · rintro ⟨hm, hn⟩
          exact ⟨by omega, hm, by omega⟩)
      (s := a) (h.becomes_self.congr (by
        rw [Finset.filter_true_of_mem]
        intro f _
        omega))
    refine ⟨a', hloop, hb.congr (Finset.filter_congr fun f hf ↦ ?_)⟩
    have hm := (mem_freeSet.mp hf).1
    have hbound := h.bounded
    have hiff : (first ≤ f ∧ f < first + (last + 1 - first)) ↔ Overlaps start len f := by
      simp only [first, last, FrameNumber.containing, saturatingAdd, u64Max, Overlaps, frameSize]
      omega
    rw [hiff]

/-! ### The search -/

private theorem firstAllocatedIn_spec (h : a.WF) {index n : Nat} (hn : index + n ≤ a.frames) :
    (a.firstAllocatedIn index n = some none ∧ ∀ j, index ≤ j → j < index + n → a.bit j = false) ∨
      ∃ blocker, a.firstAllocatedIn index n = some (some blocker) ∧ index ≤ blocker ∧
        blocker < index + n ∧ a.bit blocker = true := by
  induction n generalizing index with
  | zero =>
    left
    refine ⟨rfl, ?_⟩
    intro j hl hr
    omega
  | succ n ih =>
    have hget : a.get index = some (a.bit index) := get_eq (h.div_lt (by omega))
    by_cases hb : a.bit index = true
    · right
      refine ⟨index, ?_, Nat.le_refl _, by omega, hb⟩
      simp only [firstAllocatedIn, hget, Option.bind_eq_bind, Option.bind_some, hb, ↓reduceIte]
    · have hstep : a.firstAllocatedIn index (n + 1) = a.firstAllocatedIn (index + 1) n := by
        simp only [firstAllocatedIn, hget, Option.bind_eq_bind, Option.bind_some, hb,
          Bool.false_eq_true, ↓reduceIte]
      rw [hstep]
      have hrest : index + 1 + n ≤ a.frames := by omega
      rcases ih hrest with ⟨he, hclear⟩ | ⟨blocker, he, hl, hr, hs⟩
      · left
        refine ⟨he, ?_⟩
        intro j hl hr
        by_cases hj : j = index
        · subst hj
          simpa using hb
        · exact hclear j (by omega) (by omega)
      · exact .inr ⟨blocker, he, by omega, by omega, hs⟩

private theorem searchFrom_clear {index : Nat} (hadd : addU64 index count ≠ none)
    (hw : index + count ≤ a.frames) (he : a.firstAllocatedIn index count = some none) :
    a.searchFrom count index = some (some index) := by
  rw [searchFrom, if_neg hadd, dif_pos hw]
  split
  · next hn => rw [he] at hn; cases hn
  · rfl
  · next hn => rw [he] at hn; cases hn

private theorem searchFrom_blocked {index blocker : Nat} (hadd : addU64 index count ≠ none)
    (hw : index + count ≤ a.frames)
    (he : a.firstAllocatedIn index count = some (some blocker)) :
    a.searchFrom count index = a.searchFrom count (blocker + 1) := by
  rw [searchFrom, if_neg hadd, dif_pos hw]
  split
  · next hn => rw [he] at hn; cases hn
  · next hn => rw [he] at hn; cases hn
  · next hn =>
    rw [he] at hn
    cases hn
    rfl

/-- The search does not panic. It returns a window of clear bits inside the range, or
there is none from its starting point on. -/
theorem searchFrom_spec (h : a.WF) (hc : count ≤ a.frames) (index : Nat)
    (hi : index ≤ a.frames) :
    (∃ k, a.searchFrom count index = some (some k) ∧ k + count ≤ a.frames ∧
      ∀ j, k ≤ j → j < k + count → a.bit j = false) ∨
    (a.searchFrom count index = some none ∧ ∀ k, index ≤ k → k + count ≤ a.frames →
      ∃ j, k ≤ j ∧ j < k + count ∧ a.bit j = true) := by
  have hbound := h.bounded
  have hadd : addU64 index count ≠ none := by
    rw [addU64_of_le (by simp only [u64Max]; omega)]
    simp
  by_cases hw : index + count ≤ a.frames
  · rcases firstAllocatedIn_spec h hw with ⟨he, hclear⟩ | ⟨blocker, he, hl, hr, hs⟩
    · exact .inl ⟨index, searchFrom_clear hadd hw he, hw, hclear⟩
    · rw [searchFrom_blocked hadd hw he]
      -- a window that starts at or below the blocker contains it
      rcases searchFrom_spec h hc (blocker + 1) (by omega) with hfound | ⟨hn, hnone⟩
      · exact .inl hfound
      · right
        refine ⟨hn, ?_⟩
        intro k hk hkc
        by_cases hkb : k ≤ blocker
        · exact ⟨blocker, hkb, by omega, hs⟩
        · exact hnone k (by omega) hkc
  · right
    rw [searchFrom, if_neg hadd, dif_neg hw]
    refine ⟨rfl, ?_⟩
    intro k hk hkc
    omega
termination_by a.frames - index

/-- The search returns the first window of clear bits: each window between its starting point
and the one it returns holds a set bit. -/
theorem searchFrom_first (h : a.WF) (index : Nat) {k : Nat}
    (hs : a.searchFrom count index = some (some k)) {j : Nat} (hj : index ≤ j) (hjk : j < k) :
    ∃ i, j ≤ i ∧ i < j + count ∧ a.bit i = true := by
  have hbound := h.bounded
  by_cases hadd : addU64 index count = none
  · rw [searchFrom, if_pos hadd] at hs
    cases hs
  · by_cases hw : index + count ≤ a.frames
    · rcases firstAllocatedIn_spec h hw with ⟨he, -⟩ | ⟨blocker, he, hl, hr, hset⟩
      · rw [searchFrom_clear hadd hw he] at hs
        cases hs
        omega
      · rw [searchFrom_blocked hadd hw he] at hs
        by_cases hjb : j ≤ blocker
        · exact ⟨blocker, hjb, by omega, hset⟩
        · exact searchFrom_first h (blocker + 1) hs (by omega) hjk
    · rw [searchFrom, if_neg hadd, dif_neg hw] at hs
      cases hs
termination_by a.frames - index

/-! ### Allocation -/

private theorem setLoop_spec {index : Nat} (h : a.WF) (hr : index + count ≤ a.frames) :
    ∃ s, Proc.forRange count (fun i ↦ set (index + i) true) a = some (.ok (), s) ∧
      (s.base = a.base ∧ s.frames = a.frames ∧ s.allocated = a.allocated ∧ s.cursor = a.cursor) ∧
      s.bitmap.length = a.bitmap.length ∧
      ∀ j, s.bit j = if index ≤ j ∧ j < index + count then true else a.bit j := by
  refine Proc.forRange_total (fun i (s : FrameAllocator) ↦
    (s.base = a.base ∧ s.frames = a.frames ∧ s.allocated = a.allocated ∧ s.cursor = a.cursor) ∧
      s.bitmap.length = a.bitmap.length ∧
      ∀ j, s.bit j = if index ≤ j ∧ j < index + i then true else a.bit j) ?_ ?_
  · rintro i s hi ⟨hsame, hlen, hbits⟩
    have hin : (index + i) / 64 < s.bitmap.length := by
      rw [hlen]
      exact h.div_lt (by omega)
    obtain ⟨bitmap, hset, hlen', hbits'⟩ := set_eq true hin
    refine ⟨_, hset, hsame, hlen'.trans hlen, ?_⟩
    intro j
    rw [hbits', hbits]
    by_cases hj : j = index + i
    · rw [if_pos hj, if_pos (by omega)]
    · rw [if_neg hj]
      by_cases hw : index ≤ j ∧ j < index + i
      · rw [if_pos hw, if_pos (by omega)]
      · rw [if_neg hw, if_neg (by omega)]
  · refine ⟨⟨rfl, rfl, rfl, rfl⟩, rfl, ?_⟩
    intro j
    rw [if_neg (by omega)]

/-- The frames `[f, f + count)`. -/
def runOf (f count : Nat) : Finset Nat := Finset.Ico f (f + count)

/-- Membership in a run of frames. -/
theorem mem_runOf {f count g : Nat} : g ∈ runOf f count ↔ f ≤ g ∧ g < f + count := Finset.mem_Ico

/-- A run has as many frames as its length. -/
theorem card_runOf (f count : Nat) : (runOf f count).card = count := by
  rw [runOf, Nat.card_Ico]
  omega

private theorem takeWindow_spec {k : Nat} (h : a.WF) (hk : k + count ≤ a.frames)
    (hclear : ∀ j, k ≤ j → j < k + count → a.bit j = false) :
    runOf (a.base + k) count ⊆ a.freeSet ∧
      ∃ a', takeWindow k count a = some (.ok (a.base + k), a') ∧
        a.Becomes a' (a.freeSet \ runOf (a.base + k) count) := by
  have hsub : runOf (a.base + k) count ⊆ a.freeSet := by
    intro g hg
    rw [mem_runOf] at hg
    exact mem_freeSet.mpr ⟨by omega, hclear _ (by omega) (by omega)⟩
  refine ⟨hsub, ?_⟩
  obtain ⟨s, hloop, ⟨hbase, hframes, halloc, hkept⟩, hlen, hbits⟩ := setLoop_spec h hk
  have hcount := h.counted
  have hbound := h.bounded
  have hcard := Finset.card_sdiff_add_card_eq_card hsub
  rw [card_runOf] at hcard
  have hu : s.allocated + count ≤ u64Max := by
    simp only [u64Max]
    omega
  have hub : s.base + k ≤ u64Max := by
    simp only [u64Max]
    omega
  let b : FrameAllocator := { s with allocated := s.allocated + count }
  have hfree : b.freeSet = a.freeSet \ runOf (a.base + k) count := by
    ext g
    rw [Finset.mem_sdiff, mem_freeSet, mem_freeSet, mem_runOf]
    change ((s.base ≤ g ∧ g < s.base + s.frames) ∧ s.bit (g - s.base) = false) ↔ _
    rw [hbits, hbase, hframes]
    by_cases hw : k ≤ g - a.base ∧ g - a.base < k + count
    · rw [if_pos hw]
      constructor
      · rintro ⟨-, hc⟩
        cases hc
      · rintro ⟨⟨hr, -⟩, hn⟩
        omega
    · rw [if_neg hw]
      constructor
      · rintro ⟨hr, hc⟩
        exact ⟨⟨hr, hc⟩, by omega⟩
      · rintro ⟨hm, -⟩
        exact hm
  have hb : a.Becomes b (a.freeSet \ runOf (a.base + k) count) := by
    apply becomes_of_bits h
    · exact ⟨hbase, hframes⟩
    · exact hlen
    · change s.cursor ≤ a.frames
      rw [hkept]
      exact h.cursor_le
    · exact hfree
    · change s.allocated + count + _ = a.frames
      omega
    · intro j hj
      change s.bit j = a.bit j
      rw [hbits, if_neg (by omega)]
  refine ⟨{ b with cursor := k + count }, ?_, hb.setCursor (by rw [hb.frames_eq]; exact hk)⟩
  simp only [takeWindow, Proc.run_bind, hloop, addAllocated, Proc.run_get, addU64_of_le hu,
    Proc.run_lift_some, Proc.run_modify, addU64_of_le hub, b]
  rw [hbase]

/-- Allocation of a run: it returns a run of free frames and takes exactly these, or
there is no free run of this length and nothing changes. -/
theorem allocateContiguous_spec (h : a.WF) (count : Nat) :
    (∃ f a', allocateContiguous count a = some (.ok f, a') ∧ 0 < count ∧
      runOf f count ⊆ a.freeSet ∧ a.Becomes a' (a.freeSet \ runOf f count)) ∨
    (allocateContiguous count a = some (.error .outOfMemory, a) ∧
      (0 < count → ∀ f, ¬ runOf f count ⊆ a.freeSet)) := by
  by_cases hc : count = 0 ∨ count > a.frames
  · right
    constructor
    · simp only [allocateContiguous, Proc.run_bind, Proc.run_get, if_pos hc, Proc.run_fail]
    · intro hpos f hsub
      have hle := Finset.card_le_card (hsub.trans a.freeSet_subset_managed)
      rw [card_runOf, card_managed] at hle
      omega
  · have hle : count ≤ a.frames := by omega
    rcases searchFrom_spec h hle a.cursor h.cursor_le with ⟨k, hs, hk, hclear⟩ | ⟨hs, -⟩
    · obtain ⟨hsub, a', ht, hb⟩ := takeWindow_spec h hk hclear
      left
      refine ⟨a.base + k, a', ?_, by omega, hsub, hb⟩
      simp only [allocateContiguous, Proc.run_bind, Proc.run_get, if_neg hc, hs,
        Proc.run_lift_some, ht]
    · rcases searchFrom_spec h hle 0 (Nat.zero_le _) with ⟨k, hs', hk, hclear⟩ | ⟨hs', hnone⟩
      · obtain ⟨hsub, a', ht, hb⟩ := takeWindow_spec h hk hclear
        left
        refine ⟨a.base + k, a', ?_, by omega, hsub, hb⟩
        simp only [allocateContiguous, Proc.run_bind, Proc.run_get, if_neg hc, hs, hs',
          Proc.run_lift_some, ht]
      · right
        constructor
        · simp only [allocateContiguous, Proc.run_bind, Proc.run_get, if_neg hc, hs, hs',
            Proc.run_lift_some, Proc.run_fail]
        · intro hpos f hsub
          have hf := mem_freeSet.mp (hsub (mem_runOf.mpr ⟨Nat.le_refl f, by omega⟩))
          have hl := mem_freeSet.mp (hsub (show f + count - 1 ∈ runOf f count from
            mem_runOf.mpr ⟨by omega, by omega⟩))
          obtain ⟨j, hj, hj', hset⟩ := hnone (f - a.base) (Nat.zero_le _) (by omega)
          have hm := mem_freeSet.mp (hsub (show a.base + j ∈ runOf f count from
            mem_runOf.mpr ⟨by omega, by omega⟩))
          rw [show a.base + j - a.base = j by omega, hset] at hm
          exact absurd hm.2 (by simp)

/-! ### Freeing -/

/-- Freeing an allocated managed frame makes it free. -/
theorem free_of_taken (h : a.WF) (hf : f ∈ a.managed) (ht : f ∉ a.freeSet) :
    ∃ a', free f a = some (.ok (), a') ∧ a.Becomes a' (insert f a.freeSet) := by
  obtain ⟨bitmap, b, hset, hsub, hb⟩ := clear_spec h hf ht
  have hm := mem_managed.mp hf
  refine ⟨if f - a.base < b.cursor then { b with cursor := f - a.base } else b, ?_, ?_⟩
  · rw [free, run_of_mem h hf, if_neg (by simpa using ht), Proc.run_bind_ok hset,
      Proc.run_bind_ok hsub, Proc.run_modify]
  · split
    · apply hb.setCursor
      rw [hb.frames_eq]
      omega
    · exact hb

/-- A double free is an error that changes nothing. -/
theorem free_of_mem_freeSet (h : a.WF) (hf : f ∈ a.freeSet) :
    free f a = some (.error .notAllocated, a) := by
  rw [free, run_of_mem h (a.freeSet_subset_managed hf), if_pos (by simpa using hf), Proc.run_fail]

/-- Freeing an unmanaged frame is an error that changes nothing. -/
theorem free_of_notMem (hf : f ∉ a.managed) : free f a = some (.error .outOfRange, a) :=
  run_of_notMem hf _

/-- Frame `f` may be freed: it is managed and allocated. -/
def Taken (a : FrameAllocator) (f : Nat) : Prop := f ∈ a.managed ∧ f ∉ a.freeSet

/-- The query answers yes exactly on the frames that may be freed. -/
theorem WF.isAllocated_taken (h : a.WF) : a.isAllocated f = some (some true) ↔ a.Taken f := by
  rw [h.isAllocated_eq]
  unfold Taken
  by_cases hf : f ∈ a.managed
  · simp [hf]
  · simp [hf]

/-- A frame that is as free as before is answered for as before. -/
theorem Becomes.isAllocated_congr (h : a.Becomes a' s) (ha : a.WF) (hf : f ∈ s ↔ f ∈ a.freeSet) :
    a'.isAllocated f = a.isAllocated f := by
  rw [h.wf.isAllocated_eq, ha.isAllocated_eq, h.managed_eq, h.freeSet_eq]
  simp only [hf]

private theorem checkAllocated_of_taken (h : a.WF) (ht : a.Taken f) :
    checkAllocated f a = some (.ok (), a) := by
  rw [checkAllocated, run_of_mem h ht.1, if_neg (by simpa using ht.2), Proc.run_pure]

private theorem checkAllocated_of_not_taken (h : a.WF) (ht : ¬ a.Taken f) :
    ∃ e, checkAllocated f a = some (.error e, a) := by
  by_cases hf : f ∈ a.managed
  · have hfree : f ∈ a.freeSet := by
      by_cases hm : f ∈ a.freeSet
      · exact hm
      · exact absurd ⟨hf, hm⟩ ht
    refine ⟨.notAllocated, ?_⟩
    rw [checkAllocated, run_of_mem h hf, if_pos (by simpa using hfree), Proc.run_fail]
  · exact ⟨.outOfRange, run_of_notMem hf _⟩

/-- The check of the `i`-th frame of a run. -/
private def checkAt (f i : Nat) : Proc FrameAllocator MemoryError Unit := do
  let g ← Proc.lift (addU64 f i)
  checkAllocated g

private theorem checkLoop_ok (h : a.WF) (ht : ∀ i, i < count → a.Taken (f + i)) :
    Proc.forRange count (checkAt f) a = some (.ok (), a) := by
  induction count with
  | zero => rfl
  | succ n ih =>
    have hm := mem_managed.mp (ht n (by omega)).1
    have hbound := h.bounded
    rw [Proc.forRange, Proc.run_bind_ok (ih fun i hi ↦ ht i (by omega))]
    rw [checkAt, addU64_of_le (by simp only [u64Max]; omega), Proc.run_bind_ok rfl]
    exact checkAllocated_of_taken h (ht n (by omega))

private theorem checkLoop_error (h : a.WF) (hu : f ≤ u64Max) {i : Nat} (hi : i < count)
    (ht : ¬ a.Taken (f + i)) (hpre : ∀ j, j < i → a.Taken (f + j)) :
    ∃ e, Proc.forRange count (checkAt f) a = some (.error e, a) := by
  induction count with
  | zero => omega
  | succ n ih =>
    by_cases hn : i = n
    · subst hn
      have hbound := h.bounded
      have hadd : f + i ≤ u64Max := by
        cases i with
        | zero => exact hu
        | succ j =>
          have hm := mem_managed.mp (hpre j (by omega)).1
          simp only [u64Max]
          omega
      obtain ⟨e, he⟩ := checkAllocated_of_not_taken h ht
      refine ⟨e, ?_⟩
      rw [Proc.forRange, Proc.run_bind_ok (checkLoop_ok h hpre), checkAt, addU64_of_le hadd,
        Proc.run_bind_ok rfl, he]
    · obtain ⟨e, he⟩ := ih (by omega)
      exact ⟨e, by rw [Proc.forRange, Proc.run_bind_error he]⟩

private theorem freeContiguous_eq (f count : Nat) :
    freeContiguous f count = (do
      Proc.forRange count (checkAt f)
      Proc.forRange count fun i ↦ do
        let g ← Proc.lift (addU64 f i)
        free g) := rfl

private theorem checks_error (h : a.WF) (hu : f ≤ u64Max)
    (ht : ¬ ∀ g ∈ runOf f count, a.Taken g) :
    ∃ e, Proc.forRange count (checkAt f) a = some (.error e, a) := by
  classical
  have hex : ∃ i, i < count ∧ ¬ a.Taken (f + i) := by
    by_cases hall : ∀ i, i < count → a.Taken (f + i)
    · refine absurd (fun g hg ↦ ?_) ht
      rw [mem_runOf] at hg
      have := hall (g - f) (by omega)
      rwa [show f + (g - f) = g by omega] at this
    · simpa using hall
  have hfirst := Nat.find_spec hex
  have hpre (j : Nat) (hj : j < Nat.find hex) : a.Taken (f + j) := by
    have hmin := Nat.find_min hex hj
    by_cases htj : a.Taken (f + j)
    · exact htj
    · exact absurd ⟨by omega, htj⟩ hmin
  exact checkLoop_error h hu hfirst.1 hfirst.2 hpre

private theorem checks_pass (h : a.WF) (ht : ∀ g ∈ runOf f count, a.Taken g) :
    Proc.forRange count (checkAt f) a = some (.ok (), a) :=
  checkLoop_ok h fun i hi ↦ ht _ (mem_runOf.mpr ⟨by omega, by omega⟩)

/-- The checks of a run pass exactly when all its frames are managed and allocated, and they
change nothing. -/
theorem checks_eq_ok (h : a.WF) (hu : f ≤ u64Max) :
    Proc.forRange count (fun i ↦ do
      let g ← Proc.lift (addU64 f i)
      checkAllocated g) a = some (.ok (), a') ↔ (∀ g ∈ runOf f count, a.Taken g) ∧ a' = a := by
  change Proc.forRange count (checkAt f) a = _ ↔ _
  by_cases ht : ∀ g ∈ runOf f count, a.Taken g
  · rw [checks_pass h ht]
    constructor
    · intro he
      cases he
      exact ⟨ht, rfl⟩
    · rintro ⟨-, rfl⟩
      rfl
  · obtain ⟨e, he⟩ := checks_error h hu ht
    rw [he]
    constructor
    · intro hok
      cases hok
    · intro hok
      exact absurd hok.1 ht

/-- Freeing the frames of a run that are all managed and allocated, one by one, never fails. -/
theorem frees_of_taken (h : a.WF) (ht : ∀ g ∈ runOf f count, a.Taken g) :
    ∃ a', Proc.forRange count (fun i ↦ do
        let g ← Proc.lift (addU64 f i)
        free g) a = some (.ok (), a') ∧
      a.Becomes a' (a.freeSet ∪ runOf f count) := by
  have hrun (i : Nat) (hi : i < count) : a.Taken (f + i) :=
    ht _ (mem_runOf.mpr ⟨by omega, by omega⟩)
  refine Proc.forRange_total (fun i s ↦ a.Becomes s (a.freeSet ∪ runOf f i)) ?_ ?_
  · intro i s hi hs
    have hm := hrun i hi
    have hin := mem_managed.mp hm.1
    have hbound := h.bounded
    have hnot : f + i ∉ s.freeSet := by
      rw [hs.freeSet_eq, Finset.mem_union, mem_runOf]
      rintro (hc | hc)
      · exact hm.2 hc
      · omega
    obtain ⟨s', hfree, hs'⟩ := free_of_taken hs.wf (by rw [hs.managed_eq]; exact hm.1) hnot
    refine ⟨s', ?_, (hs.trans hs').congr ?_⟩
    · rw [addU64_of_le (by simp only [u64Max]; omega), Proc.run_bind_ok rfl, hfree]
    · rw [hs.freeSet_eq]
      ext g
      simp only [Finset.mem_insert, Finset.mem_union, mem_runOf]
      grind
  · apply h.becomes_self.congr
    ext g
    simp only [Finset.mem_union, mem_runOf]
    grind

/-- Freeing a run whose frames are all managed and allocated frees exactly these. -/
theorem freeContiguous_of_taken (h : a.WF) (ht : ∀ g ∈ runOf f count, a.Taken g) :
    ∃ a', freeContiguous f count a = some (.ok (), a') ∧
      a.Becomes a' (a.freeSet ∪ runOf f count) := by
  rw [freeContiguous_eq, Proc.run_bind_ok (checks_pass h ht)]
  exact frees_of_taken h ht

/-- Freeing a run that is not wholly managed and allocated is an error that changes
nothing. -/
theorem freeContiguous_of_not_taken (h : a.WF) (hu : f ≤ u64Max)
    (ht : ¬ ∀ g ∈ runOf f count, a.Taken g) :
    ∃ e, freeContiguous f count a = some (.error e, a) := by
  obtain ⟨e, he⟩ := checks_error h hu ht
  exact ⟨e, by rw [freeContiguous_eq, Proc.run_bind_error he]⟩

end FrameAllocator
end LokoOS.Memory
