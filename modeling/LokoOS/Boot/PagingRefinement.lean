import LokoOS.Boot.PagingSpec

/-!
# The builder refines a partial map

`boot/loko-boot/src/paging.rs:137–253`. A fresh builder represents the empty map, the two
mapping calls extend the map by exactly one page or leave it alone, and the hardware's
walk of the tables is the translation of the map.
-/

namespace LokoOS.Boot
open LokoOS.Base

namespace PageTables

variable {t t' : PageTables} {ℓ n f : Nat}

/-! ### A fresh builder -/

private theorem fresh_table (hzero : ∀ i < 512, readEntry t.memory t.pml4 i = 0) (n : Nat) :
    t.tree.table (ℓ + 1) n = none := by
  induction ℓ generalizing n with
  | zero =>
    rw [Radix.table]
    by_cases hn : n / t.tree.fan = 0
    · have hread : t.tree.read t.tree.root (n % t.tree.fan) = 0 :=
        hzero _ (Nat.mod_lt n (by decide : 0 < 512))
      rw [Radix.table, if_pos hn, Option.map_some, Option.bind_some, hread]
      rfl
    · rw [Radix.table, if_neg hn]
      rfl
  | succ ℓ ih =>
    rw [Radix.table, ih]
    rfl

private theorem fresh_root (hzero : ∀ i < 512, readEntry t.memory t.pml4 i = 0)
    (ht : t.tree.table ℓ n = some f) : ℓ = 0 ∧ n = 0 ∧ f = t.pml4 := by
  cases ℓ with
  | succ ℓ =>
    rw [fresh_table hzero] at ht
    cases ht
  | zero =>
    rw [Radix.table] at ht
    split at ht
    · next hn =>
      cases ht
      exact ⟨rfl, hn, rfl⟩
    · cases ht

private theorem fresh_slot (hzero : ∀ i < 512, readEntry t.memory t.pml4 i = 0) {e : Nat}
    (hs : t.tree.slot ℓ n = some e) : e = 0 := by
  rcases Radix.slot_eq_some.mp hs with ⟨g, hg, hread⟩
  have hroot : g = t.pml4 := (fresh_root hzero hg).2.2
  rw [hroot] at hread
  exact hread.symm.trans (hzero _ (Nat.mod_lt n (by decide : 0 < 512)))

private theorem fresh_view (hzero : ∀ i < 512, readEntry t.memory t.pml4 i = 0) :
    t.view = .empty := by
  have hnone : ∀ ℓ n, t.tree.table (ℓ + 1) n = none := fun ℓ n ↦ fresh_table hzero n
  ext1
  · funext v
    change (t.tree.slot 3 v).bind _ = none
    rw [Radix.slot, hnone]
    rfl
  · funext s
    change (t.tree.slot 2 s).bind _ = none
    rw [Radix.slot, hnone]
    rfl
  · funext s
    change (t.tree.table 3 s).isSome = false
    rw [hnone]
    rfl

private theorem fresh_wf (ha : t.arenaBase % 4096 = 0)
    (hb : t.arenaBase + t.arenaFrames * pageSize ≤ 2 ^ 52) (hpos : 0 < t.arenaFrames)
    (hroot : t.pml4 = t.arenaBase) (hnext : t.nextFrame = 1)
    (hzero : ∀ k i, k < t.arenaFrames → i < 512 → readEntry t.memory (t.frameAt k) i = 0) :
    t.WF := by
  have hzero' : ∀ i < 512, readEntry t.memory t.pml4 i = 0 := by
    intro i hi
    have := hzero 0 i hpos hi
    rwa [frameAt, Nat.zero_mul, Nat.add_zero, ← hroot] at this
  constructor
  · exact ha
  · exact hb
  · omega
  · refine ⟨Nat.succ_pos 511, ?_⟩
    intro ℓ ℓ' n n' g _ _ hg hg'
    rcases fresh_root hzero' hg with ⟨rfl, rfl, -⟩
    rcases fresh_root hzero' hg' with ⟨rfl, rfl, -⟩
    exact ⟨rfl, rfl⟩
  · intro ℓ n g _ hg
    rcases fresh_root hzero' hg with ⟨-, -, rfl⟩
    exact ⟨0, by omega, by rw [frameAt, Nat.zero_mul, Nat.add_zero, hroot]⟩
  · intro k i _ hk hi
    exact hzero k i hk hi
  · intro ℓ s e _ hs
    rw [fresh_slot hzero' hs]
    exact .absent

private theorem new_run (memory : Memory) (arenaBase arenaFrames : Nat)
    (ha : arenaBase % 4096 = 0) (hpos : 0 < arenaFrames)
    (hb : arenaBase + arenaFrames * pageSize ≤ 2 ^ 52) :
    new memory arenaBase arenaFrames = some (.ok ⟨arenaBase, arenaBase, arenaFrames, 1,
      memory.store arenaBase (List.replicate (arenaFrames * pageSize) 0)⟩) := by
  have hmul : mulU64 arenaFrames pageSize = some (arenaFrames * pageSize) :=
    mulU64_of_le (by simp only [u64Max]; omega)
  have htake (cleared : Memory) : takeFrame ⟨0, arenaBase, arenaFrames, 0, cleared⟩ =
      some (.ok arenaBase, ⟨0, arenaBase, arenaFrames, 1, cleared⟩) := by
    have hm : mulU64 0 pageSize = some 0 := by decide
    have hadd : addU64 arenaBase 0 = some arenaBase := addU64_of_le (by simp only [u64Max]; omega)
    have hnext : addU64 0 1 = some 1 := by decide
    rw [takeFrame, Proc.run_bind_ok (Proc.run_get _), if_neg (Nat.not_le.mpr hpos), hm,
      Proc.run_bind_ok (Proc.run_lift_some _ _), hadd, Proc.run_bind_ok (Proc.run_lift_some _ _),
      hnext, Proc.run_bind_ok (Proc.run_lift_some _ _), Proc.run_bind_ok (Proc.run_modify _ _),
      Proc.run_pure]
  have hstore : storePhysical memory arenaBase (List.replicate (arenaFrames * pageSize) 0) =
      some (memory.store arenaBase (List.replicate (arenaFrames * pageSize) 0)) := by
    rw [storePhysical, if_pos (.inr (by rw [List.length_replicate]; exact hb))]
  rw [new, if_neg (by simp only [pageSize]; omega), hmul]
  simp only [Option.bind_eq_bind, Option.bind_some, hstore, htake]
  rfl

/-- A fresh builder on an aligned arena below the physical limit represents the empty
map and has used one frame. -/
theorem new_spec (memory : Memory) (arenaBase arenaFrames : Nat) (ha : arenaBase % 4096 = 0)
    (hpos : 0 < arenaFrames) (hb : arenaBase + arenaFrames * pageSize ≤ 2 ^ 52) :
    ∃ t, new memory arenaBase arenaFrames = some (.ok t) ∧ t.WF ∧ t.view = .empty ∧
      t.arenaBase = arenaBase ∧ t.arenaFrames = arenaFrames ∧ t.pml4 = arenaBase ∧
      t.nextFrame = 1 ∧ ∀ a, ¬ t.InArena a → t.memory a = memory a := by
  let t : PageTables := ⟨arenaBase, arenaBase, arenaFrames, 1,
    memory.store arenaBase (List.replicate (arenaFrames * pageSize) 0)⟩
  have hzero : ∀ k i, k < t.arenaFrames → i < 512 →
      readEntry t.memory (t.frameAt k) i = 0 := by
    intro k i hk hi
    have hle : (k + 1) * pageSize ≤ arenaFrames * pageSize := Nat.mul_le_mul_right _ hk
    refine Memory.loadWord_store_zeros ?_ ?_ <;>
      simp only [t, frameAt, pageSize] at hle ⊢ <;> omega
  have hwf : t.WF := fresh_wf ha hb hpos rfl rfl hzero
  have hview : t.view = .empty := by
    apply fresh_view
    intro i hi
    have := hzero 0 i hpos hi
    rwa [frameAt, Nat.zero_mul, Nat.add_zero] at this
  refine ⟨t, new_run memory arenaBase arenaFrames ha hpos hb, hwf, hview, rfl, rfl, rfl, rfl, ?_⟩
  intro a hna
  apply Memory.store_outside
  rw [List.length_replicate]
  simp only [InArena, t] at hna
  omega

/-- A builder that was made at all has an aligned arena below the physical limit. -/
theorem new_eq_ok {memory : Memory} {arenaBase arenaFrames : Nat}
    (h : new memory arenaBase arenaFrames = some (.ok t)) :
    arenaBase % 4096 = 0 ∧ 0 < arenaFrames ∧
      arenaBase + arenaFrames * pageSize ≤ 2 ^ 52 := by
  by_cases hbad : arenaBase % pageSize ≠ 0 ∨ arenaFrames = 0
  · rw [new, if_pos hbad] at h
    cases h
  · rw [new, if_neg hbad] at h
    simp only [Option.bind_eq_bind, Option.bind_eq_some_iff] at h
    obtain ⟨bytes, hbytes, cleared, hstore, -⟩ := h
    obtain ⟨-, rfl⟩ := mulU64_eq_some.mp hbytes
    rw [storePhysical, List.length_replicate] at hstore
    split at hstore
    · next hfit =>
      simp only [pageSize, physicalLimit] at hbad hfit ⊢
      omega
    · cases hstore

/-! ### The way to the page directory -/

/-- The indices of an address are the digits of its page number. -/
theorem index_digits (address : Nat) :
    pml4Index address < 512 ∧ pdptIndex address < 512 ∧ pdIndex address < 512 ∧
      ptIndex address < 512 ∧ 0 * 512 + pml4Index address = hugeNumber address / 2 ^ 18 ∧
      hugeNumber address / 2 ^ 18 * 512 + pdptIndex address = hugeNumber address / 512 ∧
      hugeNumber address / 512 * 512 + pdIndex address = hugeNumber address ∧
      hugeNumber address * 512 + ptIndex address = pageNumber address := by
  rw [pml4Index_eq, pdptIndex_eq, pdIndex_eq, ptIndex_eq, hugeNumber, pageNumber]
  simp only [hugePageSize, pageSize]
  omega

/-- The frames that the two upper tables on the way to an address still need. -/
def directoryFrames (t : PageTables) (address : Nat) : Nat :=
  t.missing 1 (hugeNumber address / 2 ^ 18) + t.missing 2 (hugeNumber address / 512)

/-- The way to a page directory needs at most two frames. -/
theorem directoryFrames_le_two (t : PageTables) (address : Nat) :
    t.directoryFrames address ≤ 2 := by
  have hone := t.missing_le_one (ℓ := 1) (n := hugeNumber address / 2 ^ 18)
  have htwo := t.missing_le_one (ℓ := 2) (n := hugeNumber address / 512)
  rw [directoryFrames]
  omega

/-- The two descents to the page directory of an address succeed, or the arena is
exhausted; the map is the same. -/
theorem directory_spec (h : t.WF) (address : Nat) (k : Nat → Proc PageTables PagingError Unit) :
    (∃ pd t', (descend t.pml4 (pml4Index address) >>= fun pdpt ↦
        descend pdpt (pdptIndex address) >>= k) t = k pd t' ∧ Keeps t t' ∧
      t'.tree.table 2 (hugeNumber address / 512) = some pd ∧ t'.view = t.view ∧
      t'.nextFrame = t.nextFrame + t.directoryFrames address ∧
      ∀ n, t'.tree.table 3 n = t.tree.table 3 n) ∨
    ∃ t', (descend t.pml4 (pml4Index address) >>= fun pdpt ↦
        descend pdpt (pdptIndex address) >>= k) t = some (.error .arenaExhausted, t') ∧
      Keeps t t' ∧ t'.view = t.view ∧
      t.arenaFrames < t.nextFrame + t.directoryFrames address := by
  obtain ⟨h4, h3, -, -, hn4, hn3, -⟩ := index_digits address
  rcases descend_spec h (by decide) table_root h4 with
    ⟨pdpt, t₁, hrun, hk₁, ht₁, hv₁, -, hnext₁, hsame₁⟩ | ⟨hlevel, -⟩ | ⟨hrun, hfull⟩
  · rw [hn4, Nat.zero_add] at ht₁ hnext₁
    have hmissing : t₁.missing 2 (hugeNumber address / 512) =
        t.missing 2 (hugeNumber address / 512) := by
      rw [missing, hsame₁ 2 _ (by decide) (by decide), missing]
    rcases descend_spec hk₁.wf (by decide) ht₁ h3 with
      ⟨pd, t₂, hrun₂, hk₂, ht₂, hv₂, -, hnext₂, hsame₂⟩ | ⟨hlevel, -⟩ | ⟨hrun₂, hfull⟩
    · rw [hn3] at ht₂ hnext₂
      rw [hmissing] at hnext₂
      left
      refine ⟨pd, t₂, ?_, hk₁.trans hk₂, ht₂, hv₂.trans hv₁, ?_, ?_⟩
      · rw [Proc.run_bind_ok hrun, Proc.run_bind_ok hrun₂]
      · rw [hnext₂, hnext₁, directoryFrames, Nat.add_assoc]
      · intro n
        rw [hsame₂ 3 n (by decide) (by decide), hsame₁ 3 n (by decide) (by decide)]
    · omega
    · rw [hn3] at hfull
      rw [hmissing, hk₁.frames_eq, hnext₁] at hfull
      right
      refine ⟨t₁, ?_, hk₁, hv₁, by rw [directoryFrames]; omega⟩
      rw [Proc.run_bind_ok hrun, Proc.run_bind_error hrun₂]
  · omega
  · rw [hn4, Nat.zero_add] at hfull
    right
    refine ⟨t, by rw [Proc.run_bind_error hrun], h.keeps_self, rfl, ?_⟩
    rw [directoryFrames]
    omega

/-! ### Mapping one page -/

/-- A misaligned request is refused before anything is read. -/
theorem mapPage_misaligned {va pa : Nat} (p : Permissions)
    (h : va % pageSize ≠ 0 ∨ pa % pageSize ≠ 0) :
    mapPage va pa p t = some (.error .misaligned, t) := by
  rw [mapPage, if_pos h, Proc.run_fail]

/-- A misaligned request is refused before anything is read. -/
theorem mapHugePage_misaligned {va pa : Nat} (p : Permissions)
    (h : va % hugePageSize ≠ 0 ∨ pa % hugePageSize ≠ 0) :
    mapHugePage va pa p t = some (.error .misaligned, t) := by
  rw [mapHugePage, if_pos h, Proc.run_fail]

/-- Mapping a 2 MiB page adds it to the map, or finds a page or table there, or exhausts
the arena. -/
theorem mapHugePage_spec (h : t.WF) (va pa : Nat) (p : Permissions)
    (hva : va % hugePageSize = 0) (hpa : pa % hugePageSize = 0) (hb : pa < 2 ^ 52) :
    ∃ t', Keeps t t' ∧
      ((mapHugePage va pa p t = some (.ok (), t') ∧ t.view.huge (hugeNumber va) = none ∧
          t.view.tabled (hugeNumber va) = false ∧
          t'.view = t.view.setHuge (hugeNumber va) ⟨pa, p⟩ ∧
          t'.nextFrame = t.nextFrame + t.directoryFrames va ∧
          (t'.tree.table 2 (hugeNumber va / 512)).isSome) ∨
        (mapHugePage va pa p t = some (.error .conflict, t') ∧ t'.view = t.view ∧
          t'.nextFrame = t.nextFrame + t.directoryFrames va ∧
          (t.view.huge (hugeNumber va) ≠ none ∨ t.view.tabled (hugeNumber va) = true)) ∨
        (mapHugePage va pa p t = some (.error .arenaExhausted, t') ∧ t'.view = t.view ∧
          t.arenaFrames < t.nextFrame + t.directoryFrames va)) := by
  have hrun : mapHugePage va pa p t = (descend t.pml4 (pml4Index va) >>= fun pdpt ↦
      descend pdpt (pdptIndex va) >>= fun pd ↦
        writeLeaf pd (pdIndex va) (hugeEntry pa p)) t := by
    rw [mapHugePage, if_neg (by omega)]
    rfl
  obtain ⟨-, -, h2, -, -, -, hn2, -⟩ := index_digits va
  rw [hrun]
  rcases directory_spec h va fun pd ↦ writeLeaf pd (pdIndex va) (hugeEntry pa p) with
    ⟨pd, t₁, hdir, hk, ht, hv, hnext, -⟩ | ⟨t₁, hdir, hk, hv, hfull⟩
  · rw [hdir]
    rcases writeLeaf_huge_spec hk.wf ht h2 p hpa hb with
      ⟨hnone, htab, t₂, hwrite, hk₂, hv₂, hnext₂⟩ | ⟨hthere, hwrite⟩
    · rw [hn2, hv] at hnone htab
      rw [hn2, hv] at hv₂
      refine ⟨t₂, hk.trans hk₂, .inl ⟨hwrite, hnone, htab, hv₂, hnext₂.trans hnext, ?_⟩⟩
      rw [hk₂.tables 2 _ _ (by decide) ht]
      rfl
    · rw [hn2, hv] at hthere
      exact ⟨t₁, hk, .inr (.inl ⟨hwrite, hv, hnext, hthere⟩)⟩
  · exact ⟨t₁, hk, .inr (.inr ⟨hdir, hv, hfull⟩)⟩

/-- Mapping a 4 KiB page adds it to the map, or finds a page of either size there, or
exhausts the arena. -/
theorem mapPage_spec (h : t.WF) (va pa : Nat) (p : Permissions)
    (hva : va % pageSize = 0) (hpa : pa % pageSize = 0) (hb : pa < 2 ^ 52) :
    ∃ t', Keeps t t' ∧
      ((mapPage va pa p t = some (.ok (), t') ∧ t.view.huge (hugeNumber va) = none ∧
          t.view.page (pageNumber va) = none ∧
          t'.view = t.view.setPage (pageNumber va) ⟨pa, p⟩ ∧
          t'.nextFrame =
            t.nextFrame + t.directoryFrames va + t.missing 3 (hugeNumber va) ∧
          (t'.tree.table 3 (hugeNumber va)).isSome) ∨
        (mapPage va pa p t = some (.error .conflict, t') ∧ t'.view = t.view ∧
          (t.view.huge (hugeNumber va) ≠ none ∨ t.view.page (pageNumber va) ≠ none)) ∨
        (mapPage va pa p t = some (.error .arenaExhausted, t') ∧ t'.view = t.view ∧
          t.arenaFrames <
            t.nextFrame + t.directoryFrames va + t.missing 3 (hugeNumber va))) := by
  have hrun : mapPage va pa p t = (descend t.pml4 (pml4Index va) >>= fun pdpt ↦
      descend pdpt (pdptIndex va) >>= fun pd ↦ descend pd (pdIndex va) >>= fun pt ↦
        writeLeaf pt (ptIndex va) (pageEntry pa p)) t := by
    rw [mapPage, if_neg (by omega)]
    rfl
  obtain ⟨-, -, h2, h1, -, -, hn2, hn1⟩ := index_digits va
  have hdiv : pageNumber va / 512 = hugeNumber va := (PageMap.hugeNumber_eq va).symm
  rw [hrun]
  rcases directory_spec h va fun pd ↦ descend pd (pdIndex va) >>= fun pt ↦
      writeLeaf pt (ptIndex va) (pageEntry pa p) with
    ⟨pd, t₁, hdir, hk, ht, hv, hnext, hsame⟩ | ⟨t₁, hdir, hk, hv, hfull⟩
  · rw [hdir]
    have hmissing : t₁.missing 3 (hugeNumber va) = t.missing 3 (hugeNumber va) := by
      rw [missing, hsame, missing]
    rcases descend_spec hk.wf (by decide) ht h2 with
      ⟨pt, t₂, hrun₂, hk₂, ht₂, hv₂, hhuge, hnext₂, -⟩ | ⟨-, hthere, hrun₂⟩ | ⟨hrun₂, hfull⟩
    · rw [hn2] at ht₂ hv₂ hhuge hnext₂
      rw [if_pos rfl, hv] at hv₂
      rw [hv] at hhuge
      rw [hmissing, hnext] at hnext₂
      rw [Proc.run_bind_ok hrun₂]
      rcases writeLeaf_page_spec hk₂.wf ht₂ h1 p hpa hb with
        ⟨hnone, t₃, hwrite, hk₃, hv₃, hnext₃⟩ | ⟨hthere, hwrite⟩
      · rw [hn1, hv₂] at hnone hv₃
        refine ⟨t₃, (hk.trans hk₂).trans hk₃, .inl ⟨hwrite, hhuge rfl, hnone, ?_,
          hnext₃.trans hnext₂, ?_⟩⟩
        · rw [hv₃]
          ext1
          · rfl
          · rfl
          · funext s
            simp [PageMap.setPage, PageMap.addTable, hdiv]
        · rw [hk₃.tables 3 _ _ (Nat.le_refl _) ht₂]
          rfl
      · rw [hn1, hv₂] at hthere
        change t.view.page _ ≠ none at hthere
        have htab := h.view.tabled_of_page _ hthere
        rw [hdiv] at htab
        refine ⟨t₂, hk.trans hk₂, .inr (.inl ⟨hwrite, ?_, .inr hthere⟩)⟩
        rw [hv₂, PageMap.addTable_of_tabled htab]
    · rw [hn2, hv] at hthere
      exact ⟨t₁, hk, .inr (.inl ⟨by rw [Proc.run_bind_error hrun₂], hv, .inl hthere⟩)⟩
    · rw [hn2, hmissing, hk.frames_eq, hnext] at hfull
      exact ⟨t₁, hk, .inr (.inr ⟨by rw [Proc.run_bind_error hrun₂], hv, hfull⟩)⟩
  · exact ⟨t₁, hk, .inr (.inr ⟨hdir, hv, by omega⟩)⟩

end PageTables
end LokoOS.Boot
