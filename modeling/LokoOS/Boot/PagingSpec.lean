import LokoOS.Boot.PageTree

/-!
# What each builder operation does

One specification for each operation of `boot/loko-boot/src/paging.rs:137–253`, stated on
the partial map that the tables represent. An operation that fails may have linked tables
on its way, but the map is the one before. The hardware's walk reads the same map.
-/

namespace LokoOS.Boot
open LokoOS.Base

namespace PageTables

variable {t t' t'' : PageTables} {ℓ n i s f : Nat}

/-- What every operation keeps: the invariant, the arena, the bytes outside it and the
tables that exist. -/
structure Keeps (t t' : PageTables) : Prop where
  wf : t'.WF
  pml4_eq : t'.pml4 = t.pml4
  base_eq : t'.arenaBase = t.arenaBase
  frames_eq : t'.arenaFrames = t.arenaFrames
  next_le : t.nextFrame ≤ t'.nextFrame
  outside : ∀ a, ¬ t.InArena a → t'.memory a = t.memory a
  tables : ∀ ℓ n f, ℓ ≤ 3 → t.tree.table ℓ n = some f → t'.tree.table ℓ n = some f

/-- Doing nothing keeps everything. -/
theorem WF.keeps_self (h : t.WF) : Keeps t t :=
  ⟨h, rfl, rfl, rfl, Nat.le_refl _, fun _ _ ↦ rfl, fun _ _ _ _ ht ↦ ht⟩

/-- Two operations in a row keep what both keep. -/
theorem Keeps.trans (h : Keeps t t') (h' : Keeps t' t'') : Keeps t t'' where
  wf := h'.wf
  pml4_eq := h'.pml4_eq.trans h.pml4_eq
  base_eq := h'.base_eq.trans h.base_eq
  frames_eq := h'.frames_eq.trans h.frames_eq
  next_le := Nat.le_trans h.next_le h'.next_le
  outside a ha := by
    have ha' : ¬ t'.InArena a := by
      rw [InArena, h.base_eq, h.frames_eq]
      exact ha
    exact (h'.outside a ha').trans (h.outside a ha)
  tables ℓ n f hℓ ht := h'.tables ℓ n f hℓ (h.tables ℓ n f hℓ ht)

/-- How many frames a table that may not exist yet still needs. -/
def missing (t : PageTables) (ℓ n : Nat) : Nat := if (t.tree.table ℓ n).isSome then 0 else 1

private theorem missing_of_some (ht : t.tree.table ℓ n = some f) : t.missing ℓ n = 0 := by
  simp [missing, ht]

private theorem missing_of_none (ht : t.tree.table ℓ n = none) : t.missing ℓ n = 1 := by
  simp [missing, ht]

/-- At most one frame is needed. -/
theorem missing_le_one : t.missing ℓ n ≤ 1 := by
  unfold missing
  split <;> omega

/-- An entry of a table fits its level and is in the slot of its number. -/
theorem WF.entry (h : t.WF) (hℓ : ℓ ≤ 3) (ht : t.tree.table ℓ n = some f) (hi : i < 512) :
    EntryAt ℓ (readEntry t.memory f i) ∧
      t.tree.slot ℓ (n * 512 + i) = some (readEntry t.memory f i) := by
  have hs := Radix.slot_of_table ht hi
  exact ⟨h.entries ℓ _ _ hℓ hs, hs⟩

/-- The root table is the first level. -/
theorem table_root : t.tree.table 0 0 = some t.pml4 := rfl

/-! ### How writes change the map -/

private theorem LeafStep.view_page {frame : Nat} {p : Permissions}
    (hl : LeafStep t t' 3 s (pageEntry frame p))
    (ht : t.view.tabled (s / 512) = true) (ha : frame % 4096 = 0) (hb : frame < 2 ^ 52) :
    t'.view = t.view.setPage s ⟨frame, p⟩ := by
  have htabled : t'.view.tabled = t.view.tabled := by
    funext h
    simp only [view, hl.table_eq 3 h (Nat.le_refl _)]
  ext1
  · funext v
    rw [PageMap.setPage_page]
    simp only [view, hl.slot_eq 3 v (Nat.le_refl _), true_and]
    split
    · rw [Option.bind_some, leafOf_pageEntry p ha hb]
    · rfl
  · funext h
    simp [view, hl.slot_eq 2 h (by decide)]
  · rw [htabled]
    funext h
    rw [PageMap.setPage_tabled]
    split
    · next he => rw [he, ht]
    · rfl

private theorem LeafStep.view_huge {frame : Nat} {p : Permissions}
    (hl : LeafStep t t' 2 s (hugeEntry frame p))
    (ha : frame % hugePageSize = 0) (hb : frame < 2 ^ 52) :
    t'.view = t.view.setHuge s ⟨frame, p⟩ := by
  ext1
  · funext v
    simp [view, hl.slot_eq 3 v (Nat.le_refl _)]
  · funext h
    rw [PageMap.setHuge_huge]
    simp only [view, hl.slot_eq 2 h (by decide), true_and]
    split
    · rw [Option.bind_some, if_pos (isHuge_hugeEntry p ha hb), leafOf_hugeEntry p ha hb]
    · rfl
  · funext h
    simp [view, hl.table_eq 3 h (Nat.le_refl _)]

private theorem LinkStep.view (hl : LinkStep t t' ℓ s) (hℓ : ℓ < 3)
    (hs : t.tree.slot ℓ s = some 0) :
    t'.view = if ℓ = 2 then t.view.addTable s else t.view := by
  have hnone : t.tree.table (ℓ + 1) s = none := by
    rw [Radix.table_succ, hs]
    rfl
  have hslots : ∀ s', s' / 512 = s → t.tree.slot (ℓ + 1) s' = none := by
    intro s' hs'
    change (t.tree.table (ℓ + 1) (s' / 512)).map _ = none
    rw [hs', hnone, Option.map_none]
  have hk : ∃ k < t'.nextFrame, t.frameAt t.nextFrame = t'.frameAt k :=
    hl.wf.inArena (ℓ + 1) s _ (by omega) (by rw [hl.table_eq _ _ (by omega), if_pos ⟨rfl, rfl⟩])
  have hpage : t'.view.page = t.view.page := by
    funext v
    simp only [PageTables.view, hl.slot_eq 3 v (Nat.le_refl _)]
    rw [if_neg (by omega)]
    split
    · next hv => rw [hv.1, hslots v hv.2]; rfl
    · rfl
  have hhuge : t'.view.huge = t.view.huge := by
    funext v
    simp only [PageTables.view, hl.slot_eq 2 v (by decide)]
    split
    · next hv =>
      obtain ⟨rfl, rfl⟩ := hv
      have halign := hl.wf.table_aligned (ℓ := 3) (n := v) (by decide)
        (by rw [hl.table_eq _ _ (by omega), if_pos ⟨rfl, rfl⟩])
      rw [hs, Option.bind_some, isHuge_linkEntry halign]
      simp
    · split
      · next hv => rw [hv.1, hslots v hv.2]; rfl
      · rfl
  split
  · next h2 =>
    subst h2
    ext1
    · exact hpage
    · exact hhuge
    · funext v
      simp only [PageTables.view, PageMap.addTable, hl.table_eq 3 v (Nat.le_refl _),
        Function.update_apply]
      by_cases hv : v = s <;> simp [hv]
  · next h2 =>
    ext1
    · exact hpage
    · exact hhuge
    · funext v
      simp only [PageTables.view, hl.table_eq 3 v (Nat.le_refl _)]
      rw [if_neg (by omega)]

/-! ### The operations -/

private theorem takeFrame_of_lt (h : t.WF) (hroom : t.nextFrame < t.arenaFrames) :
    takeFrame t = some (.ok (t.frameAt t.nextFrame), t.take) := by
  have hb := h.below
  have hle : t.nextFrame * pageSize ≤ t.arenaFrames * pageSize :=
    Nat.mul_le_mul_right _ (Nat.le_of_lt hroom)
  have hmul : mulU64 t.nextFrame pageSize = some (t.nextFrame * pageSize) :=
    mulU64_of_le (by simp only [u64Max]; omega)
  have hadd : addU64 t.arenaBase (t.nextFrame * pageSize) = some (t.frameAt t.nextFrame) :=
    addU64_of_le (by simp only [u64Max]; omega)
  have hnext : addU64 t.nextFrame 1 = some (t.nextFrame + 1) :=
    addU64_of_le (by simp only [u64Max, pageSize] at *; omega)
  rw [takeFrame, Proc.run_bind_ok (Proc.run_get _), if_neg (by omega), hmul,
    Proc.run_bind_ok (Proc.run_lift_some _ _), hadd, Proc.run_bind_ok (Proc.run_lift_some _ _),
    hnext, Proc.run_bind_ok (Proc.run_lift_some _ _), Proc.run_bind_ok (Proc.run_modify _ _),
    Proc.run_pure]
  rfl

private theorem takeFrame_of_le (hfull : t.arenaFrames ≤ t.nextFrame) :
    takeFrame t = some (.error .arenaExhausted, t) := by
  rw [takeFrame, Proc.run_bind_ok (Proc.run_get _), if_pos hfull, Proc.run_fail]

private theorem present_iff (e : Nat) : e &&& present ≠ 0 ↔ isPresent e = true := by
  rw [isPresent, decide_eq_true_eq]

private theorem huge_iff (e : Nat) : e &&& huge ≠ 0 ↔ isHuge e = true := by
  rw [isHuge, decide_eq_true_eq]

private theorem descend_absent (h : t.WF) (hℓ : ℓ < 3) (ht : t.tree.table ℓ n = some f)
    (hi : i < 512) (hzero : readEntry t.memory f i = 0) (hroom : t.nextFrame < t.arenaFrames) :
    ∃ t', descend f i t = some (.ok (t.frameAt t.nextFrame), t') ∧ Keeps t t' ∧
      LinkStep t t' ℓ (n * 512 + i) ∧ t'.nextFrame = t.nextFrame + 1 := by
  have hstep := h.poke_link hℓ ht hi hzero hroom
  refine ⟨_, ?_, ⟨hstep.wf, rfl, rfl, rfl, Nat.le_succ _, ?_, ?_⟩, hstep, rfl⟩
  · rw [descend, Proc.run_bind_ok (Proc.run_get _), hzero, if_neg (by simp),
      Proc.run_bind_ok (takeFrame_of_lt h hroom), writeEntry,
      Proc.run_bind_ok (Proc.run_modify _ _),
      Proc.run_pure]
    rfl
  · intro a ha
    obtain ⟨k, hk, rfl⟩ := h.inArena ℓ n f (by omega) ht
    exact poke_outside (t := t.take) (k := k) (Nat.lt_of_lt_of_le hk h.next_le) hi ha
  · intro ℓ' n' f' hℓ' ht'
    have hs := (h.entry (by omega) ht hi).2
    rw [hzero] at hs
    rw [hstep.table_eq ℓ' n' hℓ', if_neg ?_, ht']
    rintro ⟨rfl, rfl⟩
    rw [Radix.table_succ, hs] at ht'
    cases ht'

/-- Descending from a table finds or links the next one, unless a large page is in the way
or the arena is exhausted. -/
theorem descend_spec (h : t.WF) (hℓ : ℓ < 3) (ht : t.tree.table ℓ n = some f) (hi : i < 512) :
    (∃ g t', descend f i t = some (.ok g, t') ∧ Keeps t t' ∧
      t'.tree.table (ℓ + 1) (n * 512 + i) = some g ∧
      t'.view = (if ℓ = 2 then t.view.addTable (n * 512 + i) else t.view) ∧
      (ℓ = 2 → t.view.huge (n * 512 + i) = none) ∧
      t'.nextFrame = t.nextFrame + t.missing (ℓ + 1) (n * 512 + i) ∧
      ∀ ℓ' n', ℓ' ≤ 3 → ℓ' ≠ ℓ + 1 → t'.tree.table ℓ' n' = t.tree.table ℓ' n') ∨
    (ℓ = 2 ∧ t.view.huge (n * 512 + i) ≠ none ∧
      descend f i t = some (.error .conflict, t)) ∨
    (descend f i t = some (.error .arenaExhausted, t) ∧
      t.arenaFrames < t.nextFrame + t.missing (ℓ + 1) (n * 512 + i)) := by
  obtain ⟨he, hs⟩ := h.entry (by omega) ht hi
  generalize hr : readEntry t.memory f i = e at he hs
  cases he with
  | absent =>
    have hnone : t.tree.table (ℓ + 1) (n * 512 + i) = none := by
      rw [Radix.table_succ, hs]
      rfl
    rw [missing_of_none hnone]
    by_cases hroom : t.nextFrame < t.arenaFrames
    · left
      obtain ⟨t', hrun, hkeeps, hstep, hnext⟩ := descend_absent h hℓ ht hi hr hroom
      refine ⟨_, t', hrun, hkeeps, ?_, hstep.view hℓ hs, ?_, hnext, ?_⟩
      · rw [hstep.table_eq _ _ (by omega), if_pos ⟨rfl, rfl⟩]
      · rintro rfl
        simp [PageTables.view, hs]
      · intro ℓ' n' hℓ' hne
        rw [hstep.table_eq ℓ' n' hℓ', if_neg (by omega)]
    · right; right
      refine ⟨?_, by omega⟩
      rw [descend, Proc.run_bind_ok (Proc.run_get _), hr, if_neg (by simp),
        Proc.run_bind_error (takeFrame_of_le (by omega))]
  | @link _ g _ ha hb =>
    left
    have htable : t.tree.table (ℓ + 1) (n * 512 + i) = some g := by
      rw [Radix.table_succ, hs]
      exact linkOf_linkEntry ha hb
    have hnotHuge : ¬ (linkEntry g &&& huge ≠ 0) := by
      rw [huge_iff, isHuge_linkEntry ha]
      decide
    refine ⟨g, t, ?_, h.keeps_self, htable, ?_, ?_, by rw [missing_of_some htable]; rfl,
      fun _ _ _ _ ↦ rfl⟩
    · rw [descend, Proc.run_bind_ok (Proc.run_get _), hr,
        if_pos ((present_iff _).mpr (isPresent_linkEntry ha)), if_neg hnotHuge,
        linkEntry_and_mask ha hb, Proc.run_pure]
    · split
      · next h2 =>
        subst h2
        exact (PageMap.addTable_of_tabled (by simp [PageTables.view, htable])).symm
      · rfl
    · rintro rfl
      simp [PageTables.view, hs, isHuge_linkEntry ha]
  | @huge g p ha hb =>
    right; left
    refine ⟨rfl, ?_, ?_⟩
    · simp [PageTables.view, hs, isHuge_hugeEntry p ha hb, leafOf_hugeEntry p ha hb]
    · rw [descend, Proc.run_bind_ok (Proc.run_get _), hr,
        if_pos ((present_iff _).mpr (isPresent_hugeEntry p ha hb)),
        if_pos ((huge_iff _).mpr (isHuge_hugeEntry p ha hb)), Proc.run_fail]
  | page p ha hb => omega

private theorem writeLeaf_absent (h : t.WF) (hℓ : ℓ ≤ 3) (ht : t.tree.table ℓ n = some f)
    (hi : i < 512) (hzero : readEntry t.memory f i = 0) {e : Nat} (he : EntryAt ℓ e)
    (hleaf : ℓ < 3 → linkOf e = none) :
    ∃ t', writeLeaf f i e t = some (.ok (), t') ∧ Keeps t t' ∧
      LeafStep t t' ℓ (n * 512 + i) e ∧ t'.nextFrame = t.nextFrame := by
  have hstep := h.poke_leaf hℓ ht hi hzero he hleaf
  refine ⟨_, ?_, ⟨hstep.wf, rfl, rfl, rfl, Nat.le_refl _, ?_, ?_⟩, hstep, rfl⟩
  · rw [writeLeaf, Proc.run_bind_ok (Proc.run_get _), hzero, if_neg (by simp), writeEntry,
      Proc.run_modify]
    rfl
  · intro a ha
    obtain ⟨k, hk, rfl⟩ := h.inArena ℓ n f hℓ ht
    exact poke_outside (Nat.lt_of_lt_of_le hk h.next_le) hi ha
  · intro ℓ' n' f' hℓ' ht'
    rw [hstep.table_eq ℓ' n' hℓ', ht']

private theorem writeLeaf_present {e : Nat} (he : isPresent (readEntry t.memory f i) = true) :
    writeLeaf f i e t = some (.error .conflict, t) := by
  rw [writeLeaf, Proc.run_bind_ok (Proc.run_get _), if_pos ((present_iff _).mpr he), Proc.run_fail]

/-- Writing a 4 KiB page adds it to the map if its entry is empty. -/
theorem writeLeaf_page_spec (h : t.WF) (ht : t.tree.table 3 n = some f) (hi : i < 512)
    {frame : Nat} (p : Permissions) (ha : frame % 4096 = 0) (hb : frame < 2 ^ 52) :
    (t.view.page (n * 512 + i) = none ∧
      ∃ t', writeLeaf f i (pageEntry frame p) t = some (.ok (), t') ∧ Keeps t t' ∧
        t'.view = t.view.setPage (n * 512 + i) ⟨frame, p⟩ ∧ t'.nextFrame = t.nextFrame) ∨
    (t.view.page (n * 512 + i) ≠ none ∧
      writeLeaf f i (pageEntry frame p) t = some (.error .conflict, t)) := by
  obtain ⟨he, hs⟩ := h.entry (by decide) ht hi
  generalize hr : readEntry t.memory f i = e at he hs
  have htabled : t.view.tabled ((n * 512 + i) / 512) = true := by
    simp [PageTables.view, show (n * 512 + i) / 512 = n by omega, ht]
  cases he with
  | absent =>
    left
    obtain ⟨t', hrun, hkeeps, hstep, hnext⟩ :=
      writeLeaf_absent h (by decide) ht hi hr (.page p ha hb) (by omega)
    exact ⟨by simp [PageTables.view, hs], t', hrun, hkeeps, hstep.view_page htabled ha hb, hnext⟩
  | link hℓ _ _ => omega
  | page p' ha' hb' =>
    right
    refine ⟨by simp [PageTables.view, hs, leafOf_pageEntry p' ha' hb'], writeLeaf_present ?_⟩
    rw [hr]
    exact isPresent_pageEntry p' ha' hb'

/-- Writing a 2 MiB page adds it to the map if its entry is empty. -/
theorem writeLeaf_huge_spec (h : t.WF) (ht : t.tree.table 2 n = some f) (hi : i < 512)
    {frame : Nat} (p : Permissions) (ha : frame % hugePageSize = 0) (hb : frame < 2 ^ 52) :
    (t.view.huge (n * 512 + i) = none ∧ t.view.tabled (n * 512 + i) = false ∧
      ∃ t', writeLeaf f i (hugeEntry frame p) t = some (.ok (), t') ∧ Keeps t t' ∧
        t'.view = t.view.setHuge (n * 512 + i) ⟨frame, p⟩ ∧ t'.nextFrame = t.nextFrame) ∨
    ((t.view.huge (n * 512 + i) ≠ none ∨ t.view.tabled (n * 512 + i) = true) ∧
      writeLeaf f i (hugeEntry frame p) t = some (.error .conflict, t)) := by
  obtain ⟨he, hs⟩ := h.entry (by decide) ht hi
  generalize hr : readEntry t.memory f i = e at he hs
  cases he with
  | absent =>
    left
    obtain ⟨t', hrun, hkeeps, hstep, hnext⟩ :=
      writeLeaf_absent h (by decide) ht hi hr (.huge p ha hb) fun _ ↦ linkOf_hugeEntry p ha hb
    refine ⟨by simp [PageTables.view, hs], ?_, t', hrun, hkeeps, hstep.view_huge ha hb, hnext⟩
    simp only [PageTables.view, Radix.table_succ, hs]
    rfl
  | link _ ha' hb' =>
    right
    refine ⟨.inr ?_, writeLeaf_present ?_⟩
    · simp only [PageTables.view, Radix.table_succ, hs, Option.bind_some]
      exact congrArg Option.isSome (linkOf_linkEntry ha' hb')
    · rw [hr]
      exact isPresent_linkEntry ha'
  | huge p' ha' hb' =>
    right
    refine ⟨.inl ?_, writeLeaf_present ?_⟩
    · simp [PageTables.view, hs, isHuge_hugeEntry p' ha' hb', leafOf_hugeEntry p' ha' hb']
    · rw [hr]
      exact isPresent_hugeEntry p' ha' hb'

end PageTables
end LokoOS.Boot
