import LokoOS.Boot.PagingRefinement

/-!
# The hardware reads the map the builder meant

The four-level walk of tables that satisfy the builder's invariant is the translation of
the map they represent; with it, what a call of `boot/loko-boot/src/paging.rs:207–253`
does to every address, over any sequence of calls.
-/

namespace LokoOS.Boot
open LokoOS.Base

namespace PageTables

variable {t t' : PageTables} {ℓ n s f : Nat}

private theorem WF.pml4_mask (h : t.WF) : t.pml4 &&& addressMask = t.pml4 := by
  have ha := h.table_aligned (by decide) table_root
  obtain ⟨k, hk, he⟩ := h.inArena 0 0 _ (by decide) table_root
  have hb := h.below
  have hle := h.next_le
  rw [and_addressMask]
  simp only [frameAt, pageSize] at *
  omega

private theorem slot_none (ht : t.tree.table ℓ (s / 512) = none) : t.tree.slot ℓ s = none := by
  change (t.tree.table ℓ (s / 512)).map _ = none
  rw [ht, Option.map_none]

private theorem table_none (hs : t.tree.slot ℓ n = none) : t.tree.table (ℓ + 1) n = none := by
  rw [Radix.table_succ, hs, Option.bind_none]

private theorem table_of_empty (hs : t.tree.slot ℓ n = some 0) :
    t.tree.table (ℓ + 1) n = none := by
  rw [Radix.table_succ, hs]
  rfl

private theorem table_of_link (hs : t.tree.slot ℓ n = some (linkEntry f)) (ha : f % 4096 = 0)
    (hb : f < 2 ^ 52) : t.tree.table (ℓ + 1) n = some f := by
  rw [Radix.table_succ, hs]
  exact linkOf_linkEntry ha hb

private theorem translate_none {address : Nat}
    (hp : t.tree.slot 3 (pageNumber address) = none ∨ t.tree.slot 3 (pageNumber address) = some 0)
    (hh : t.view.huge (hugeNumber address) = none) : t.view.translate address = none := by
  have hpage : t.view.page (pageNumber address) = none := by
    rcases hp with hp | hp <;> simp [PageTables.view, hp]
  rw [PageMap.translate, hpage, hh]
  simp

private theorem translate_of_directory_none {address : Nat}
    (hd : t.tree.table 2 (hugeNumber address / 512) = none) : t.view.translate address = none := by
  have hs2 := slot_none hd
  have hs3 : t.tree.slot 3 (pageNumber address) = none := by
    apply slot_none
    rw [← PageMap.hugeNumber_eq]
    exact table_none hs2
  exact translate_none (.inl hs3) (by simp [PageTables.view, hs2])

private theorem translate_of_page_entry {address g : Nat} {p : Permissions}
    (hc : Canonical address) (hs : t.tree.slot 3 (pageNumber address) = some (pageEntry g p))
    (ha : g % 4096 = 0) (hb : g < 2 ^ 52) :
    t.view.translate address = some ⟨g + address % pageSize, p⟩ := by
  have hpage : t.view.page (pageNumber address) = some ⟨g, p⟩ := by
    simp [PageTables.view, hs, leafOf_pageEntry p ha hb]
  rw [PageMap.translate, if_neg (not_not.mpr hc), hpage]

private theorem translate_of_huge_entry {address g : Nat} {p : Permissions}
    (hc : Canonical address) (hs : t.tree.slot 2 (hugeNumber address) = some (hugeEntry g p))
    (ha : g % hugePageSize = 0) (hb : g < 2 ^ 52) :
    t.view.translate address = some ⟨g + address % hugePageSize, p⟩ := by
  have htable : t.tree.table 3 (hugeNumber address) = none := by
    rw [Radix.table_succ, hs]
    exact linkOf_hugeEntry p ha hb
  have hslot : t.tree.slot 3 (pageNumber address) = none := by
    apply slot_none
    rwa [← PageMap.hugeNumber_eq]
  have hhuge : t.view.huge (hugeNumber address) = some ⟨g, p⟩ := by
    simp [PageTables.view, hs, isHuge_hugeEntry p ha hb, leafOf_hugeEntry p ha hb]
  have hpage : t.view.page (pageNumber address) = none := by
    simp [PageTables.view, hslot]
  rw [PageMap.translate, if_neg (not_not.mpr hc), hpage, hhuge]
  rfl

/-- The walk of the tables is the translation of the map. -/
theorem walk_eq (h : t.WF) (address : Nat) :
    walk t.memory t.cr3Value address = t.view.translate address := by
  by_cases hc : ¬ Canonical address
  · rw [walk, if_pos hc, PageMap.translate, if_pos hc]
  obtain ⟨h4, h3, h2, h1, hn4, hn3, hn2, hn1⟩ := index_digits address
  have hdiv : pageNumber address / 512 = hugeNumber address := (PageMap.hugeNumber_eq _).symm
  rw [walk, if_neg hc, cr3Value, h.pml4_mask]
  -- the way down stops at the first entry that is no link
  obtain ⟨he4, hs4⟩ := h.entry (by decide) table_root h4
  rw [hn4] at hs4
  generalize readEntry t.memory t.pml4 (pml4Index address) = e4 at he4 hs4
  cases he4 with
  | absent =>
    have ht1 := table_of_empty hs4
    have hs1 := slot_none (s := hugeNumber address / 512) (by rwa [Nat.div_div_eq_div_mul])
    rw [translate_of_directory_none (table_none hs1)]
    simp
  | @link _ g4 _ ha4 hb4 =>
    have ht1 := table_of_link hs4 ha4 hb4
    obtain ⟨he3, hs3⟩ := h.entry (by decide) ht1 h3
    rw [hn3] at hs3
    simp only [isPresent_linkEntry ha4, isHuge_linkEntry ha4, linkEntry_and_mask ha4 hb4,
      entryPermissions_linkEntry ha4 hb4, Bool.not_true, Bool.or_self, Bool.false_eq_true,
      ↓reduceIte]
    generalize readEntry t.memory g4 (pdptIndex address) = e3 at he3 hs3
    cases he3 with
    | absent =>
      rw [translate_of_directory_none (table_of_empty hs3)]
      simp
    | @link _ g3 _ ha3 hb3 =>
      have ht2 := table_of_link hs3 ha3 hb3
      obtain ⟨he2, hs2⟩ := h.entry (by decide) ht2 h2
      rw [hn2] at hs2
      simp only [isPresent_linkEntry ha3, isHuge_linkEntry ha3, linkEntry_and_mask ha3 hb3,
        entryPermissions_linkEntry ha3 hb3, Bool.not_true, Bool.false_eq_true, ↓reduceIte]
      generalize readEntry t.memory g3 (pdIndex address) = e2 at he2 hs2
      cases he2 with
      | absent =>
        have ht3 := table_of_empty hs2
        rw [translate_none (.inl (slot_none (by rwa [hdiv]))) (by simp [PageTables.view, hs2])]
        simp
      | @link _ g2 _ ha2 hb2 =>
        have ht3 := table_of_link hs2 ha2 hb2
        obtain ⟨he1, hs1⟩ := h.entry (by decide) ht3 h1
        rw [hn1] at hs1
        simp only [isPresent_linkEntry ha2, isHuge_linkEntry ha2, linkEntry_and_mask ha2 hb2,
          entryPermissions_linkEntry ha2 hb2, Bool.not_true, Bool.false_eq_true, ↓reduceIte]
        generalize readEntry t.memory g2 (ptIndex address) = e1 at he1 hs1
        cases he1 with
        | absent =>
          rw [translate_none (.inr hs1) (by simp [PageTables.view, hs2, isHuge_linkEntry ha2])]
          simp
        | link hℓ _ _ => omega
        | @page g1 p ha hb =>
          rw [translate_of_page_entry (not_not.mp hc) hs1 ha hb]
          simp only [isPresent_pageEntry p ha hb, frameOf_pageEntry p ha hb,
            entryPermissions_pageEntry p ha hb, Bool.not_true, Bool.false_eq_true, ↓reduceIte]
          rfl
      | @huge g2 p ha hb =>
        rw [translate_of_huge_entry (not_not.mp hc) hs2 ha hb]
        simp only [isPresent_hugeEntry p ha hb, isHuge_hugeEntry p ha hb,
          frameOf_hugeEntry p ha hb, entryPermissions_hugeEntry p ha hb, Bool.not_true,
          Bool.false_eq_true, ↓reduceIte]
        rfl

private theorem pageTableAt_eq (h : t.WF) (address : Nat) :
    pageTableAt t.memory t.cr3Value address = t.tree.table 3 (hugeNumber address) := by
  obtain ⟨h4, h3, h2, -, hn4, hn3, hn2, -⟩ := index_digits address
  rw [pageTableAt, cr3Value, h.pml4_mask]
  obtain ⟨he4, hs4⟩ := h.entry (by decide) table_root h4
  rw [hn4] at hs4
  generalize readEntry t.memory t.pml4 (pml4Index address) = e4 at he4 hs4
  cases he4 with
  | absent =>
    have ht2 := table_none (slot_none (s := hugeNumber address / 512)
      (by rw [Nat.div_div_eq_div_mul]; exact table_of_empty hs4))
    rw [table_none (slot_none ht2)]
    simp
  | @link _ g4 _ ha4 hb4 =>
    obtain ⟨he3, hs3⟩ := h.entry (by decide) (table_of_link hs4 ha4 hb4) h3
    rw [hn3] at hs3
    simp only [isPresent_linkEntry ha4, isHuge_linkEntry ha4, linkEntry_and_mask ha4 hb4,
      Bool.not_true, Bool.or_self, Bool.false_eq_true, ↓reduceIte]
    generalize readEntry t.memory g4 (pdptIndex address) = e3 at he3 hs3
    cases he3 with
    | absent =>
      rw [table_none (slot_none (table_of_empty hs3))]
      simp
    | @link _ g3 _ ha3 hb3 =>
      obtain ⟨he2, hs2⟩ := h.entry (by decide) (table_of_link hs3 ha3 hb3) h2
      rw [hn2] at hs2
      simp only [isPresent_linkEntry ha3, isHuge_linkEntry ha3, linkEntry_and_mask ha3 hb3,
        Bool.not_true, Bool.or_self, Bool.false_eq_true, ↓reduceIte]
      generalize readEntry t.memory g3 (pdIndex address) = e2 at he2 hs2
      cases he2 with
      | absent =>
        rw [table_of_empty hs2]
        simp
      | @link _ g2 _ ha2 hb2 =>
        rw [table_of_link hs2 ha2 hb2]
        simp [isPresent_linkEntry ha2, isHuge_linkEntry ha2, linkEntry_and_mask ha2 hb2]
      | @huge g2 p ha hb =>
        rw [Radix.table_succ, hs2]
        simp only [isPresent_hugeEntry p ha hb, isHuge_hugeEntry p ha hb, Bool.not_true,
          Bool.or_true, ↓reduceIte]
        exact (linkOf_hugeEntry p ha hb).symm

end PageTables

/-! ### Sequences of calls -/

/-- A mapping call of the builder. -/
inductive MapCall where
  | page (virtualAddress physicalAddress : Nat) (permissions : Permissions)
  | hugePage (virtualAddress physicalAddress : Nat) (permissions : Permissions)
  deriving DecidableEq, Repr

namespace MapCall

/-- The virtual address of a call. -/
def virtualAddress : MapCall → Nat
  | page va _ _ | hugePage va _ _ => va

/-- The physical address of a call. -/
def physicalAddress : MapCall → Nat
  | page _ pa _ | hugePage _ pa _ => pa

/-- The permissions of a call. -/
def permissions : MapCall → Permissions
  | page _ _ p | hugePage _ _ p => p

/-- The size of the page that a call maps. -/
def size : MapCall → Nat
  | page _ _ _ => pageSize
  | hugePage _ _ _ => hugePageSize

/-- Make the call. -/
def run : MapCall → Proc PageTables PagingError Unit
  | page va pa p => PageTables.mapPage va pa p
  | hugePage va pa p => PageTables.mapHugePage va pa p

/-- The virtual address is canonical and the physical one below the hardware's limit. -/
def Permitted (call : MapCall) : Prop :=
  Canonical call.virtualAddress ∧ call.physicalAddress < 2 ^ 52

/-- An address in the page that a call maps. -/
def Covers (call : MapCall) (address : Nat) : Prop :=
  call.virtualAddress ≤ address ∧ address < call.virtualAddress + call.size

instance (call : MapCall) : Decidable call.Permitted := inferInstanceAs (Decidable (_ ∧ _))

instance (call : MapCall) (address : Nat) : Decidable (call.Covers address) :=
  inferInstanceAs (Decidable (_ ∧ _))

/-- What a call does to the translation. A call that succeeds needs its range unmapped,
and without a 4 KiB table if it maps a 2 MiB page; it adds exactly that range. A call that
fails changes nothing. -/
def Outcome (call : MapCall) (t : PageTables) (r : Except PagingError Unit) (t' : PageTables) :
    Prop :=
  match r with
  | .ok () =>
    (∀ a, call.Covers a → walk t.memory t.cr3Value a = none) ∧
      (call.size = hugePageSize →
        pageTableAt t.memory t.cr3Value call.virtualAddress = none) ∧
      ∀ a, walk t'.memory t'.cr3Value a =
        if call.Covers a then
          some ⟨call.physicalAddress + (a - call.virtualAddress), call.permissions⟩
        else walk t.memory t.cr3Value a
  | .error _ => ∀ a, walk t'.memory t'.cr3Value a = walk t.memory t.cr3Value a

end MapCall

/-- The builders that a sequence of permitted calls makes from a fresh one. -/
inductive Built (memory : Memory) (arenaBase arenaFrames : Nat) : PageTables → Prop
  | new {t : PageTables} (h : PageTables.new memory arenaBase arenaFrames = some (.ok t)) :
    Built memory arenaBase arenaFrames t
  | call {t t' : PageTables} {r : Except PagingError Unit} (call : MapCall)
    (h : Built memory arenaBase arenaFrames t) (hp : call.Permitted)
    (hr : call.run t = some (r, t')) : Built memory arenaBase arenaFrames t'

namespace PageTables

variable {t t' : PageTables} {memory : Memory} {arenaBase arenaFrames : Nat}

private theorem outcome_of_view_eq (h : t.WF) (h' : t'.WF) (hv : t'.view = t.view) (a : Nat) :
    walk t'.memory t'.cr3Value a = walk t.memory t.cr3Value a := by
  rw [walk_eq h, walk_eq h', hv]

private theorem WF.call (h : t.WF) {call : MapCall} (hp : call.Permitted) :
    ∃ r t', call.run t = some (r, t') ∧ t'.WF ∧ call.Outcome t r t' := by
  obtain ⟨hc, hb⟩ := hp
  cases call with
  | page va pa p =>
    by_cases ha : va % pageSize ≠ 0 ∨ pa % pageSize ≠ 0
    · exact ⟨_, t, mapPage_misaligned p ha, h, fun _ ↦ rfl⟩
    · have hva : va % pageSize = 0 := by omega
      obtain ⟨t', hk, hcase⟩ := mapPage_spec h va pa p hva (by omega) hb
      rcases hcase with ⟨hrun, hh, hpage, hv, -⟩ | ⟨hrun, hv, -⟩ | ⟨hrun, hv, -⟩
      · refine ⟨_, t', hrun, hk.wf, fun a hcov ↦ ?_, fun hsize ↦ ?_, fun a ↦ ?_⟩
        · rw [walk_eq h]
          exact PageMap.translate_of_page_none hc hva hpage hh hcov
        · exact absurd hsize (by change pageSize ≠ hugePageSize; decide)
        · rw [walk_eq hk.wf, walk_eq h, hv]
          exact PageMap.translate_setPage hc hva a
      · exact ⟨_, t', hrun, hk.wf, outcome_of_view_eq h hk.wf hv⟩
      · exact ⟨_, t', hrun, hk.wf, outcome_of_view_eq h hk.wf hv⟩
  | hugePage va pa p =>
    by_cases ha : va % hugePageSize ≠ 0 ∨ pa % hugePageSize ≠ 0
    · exact ⟨_, t, mapHugePage_misaligned p ha, h, fun _ ↦ rfl⟩
    · have hva : va % hugePageSize = 0 := by omega
      obtain ⟨t', hk, hcase⟩ := mapHugePage_spec h va pa p hva (by omega) hb
      rcases hcase with ⟨hrun, hh, htab, hv, -⟩ | ⟨hrun, hv, -⟩ | ⟨hrun, hv, -⟩
      · refine ⟨_, t', hrun, hk.wf, fun a hcov ↦ ?_, fun _ ↦ ?_, fun a ↦ ?_⟩
        · rw [walk_eq h]
          exact PageMap.translate_of_huge_none h.view hc hva htab hh hcov
        · rw [pageTableAt_eq h, ← Option.isSome_eq_false_iff.trans Option.isNone_iff_eq_none]
          exact htab
        · rw [walk_eq hk.wf, walk_eq h, hv]
          exact PageMap.translate_setHuge h.view hc hva htab a
      · exact ⟨_, t', hrun, hk.wf, outcome_of_view_eq h hk.wf hv⟩
      · exact ⟨_, t', hrun, hk.wf, outcome_of_view_eq h hk.wf hv⟩

private theorem wf_of_built (h : Built memory arenaBase arenaFrames t) : t.WF := by
  induction h with
  | @new t hnew =>
    obtain ⟨ha, hpos, hbelow⟩ := new_eq_ok hnew
    obtain ⟨t', hrun, hwf, -⟩ := new_spec memory arenaBase arenaFrames ha hpos hbelow
    rw [hnew] at hrun
    cases hrun
    exact hwf
  | call call _ hp hr ih =>
    obtain ⟨r, t', hrun, hwf, -⟩ := ih.call hp
    rw [hr] at hrun
    cases hrun
    exact hwf

/-- The builder refines a partial map: after any sequence of permitted calls on a fresh
builder, one more call returns and changes the hardware's translation by its own range if
it succeeds, and not at all if it fails. -/
theorem builder_refines_map (h : Built memory arenaBase arenaFrames t) (call : MapCall)
    (hp : call.Permitted) :
    ∃ r t', call.run t = some (r, t') ∧ call.Outcome t r t' := by
  obtain ⟨r, t', hrun, -, ho⟩ := (wf_of_built h).call hp
  exact ⟨r, t', hrun, ho⟩

/-- The first page of a small arena at one megabyte. -/
theorem builder_refines_map_first_page :
    ∃ t, new (fun _ ↦ 0) 0x100000 8 = some (.ok t) ∧
      ∃ r t', (MapCall.page 0x400000 0x200000 .readWrite).run t = some (r, t') ∧
        (MapCall.page 0x400000 0x200000 .readWrite).Outcome t r t' := by
  obtain ⟨t, hnew, -⟩ := new_spec (fun _ ↦ 0) 0x100000 8 (by decide) (by decide) (by decide)
  exact ⟨t, hnew, builder_refines_map (.new hnew)
    (.page 0x400000 0x200000 .readWrite) (by decide)⟩

end PageTables
end LokoOS.Boot
