import LokoOS.Base.Radix
import LokoOS.Boot.Entries
import LokoOS.Boot.PageMap

/-!
# The tables in the arena form a tree

The invariant of the builder of `boot/loko-boot/src/paging.rs`: every table is a used
frame of the arena and is reached in one way, unused frames are zero, and an entry is
empty, a link or a page of the size of its level. One word is written at a time, and what
each write does to the tree is stated once here.
-/

namespace LokoOS.Boot
open LokoOS.Base

/-- The table that an entry links, if it links one. -/
def linkOf (entry : Nat) : Option Nat :=
  if isPresent entry && !isHuge entry then some (entry &&& addressMask) else none

/-- The page that a leaf entry maps, if it maps one. -/
def leafOf (entry size : Nat) : Option Leaf :=
  if isPresent entry then some ⟨frameOf entry size, entryPermissions entry⟩ else none

/-- What an entry of a level may be; level 0 is the root's, level 3 the 4 KiB pages'. -/
inductive EntryAt : Nat → Nat → Prop
  | absent {ℓ : Nat} : EntryAt ℓ 0
  | link {ℓ frame : Nat} (hℓ : ℓ < 3) (ha : frame % 4096 = 0) (hb : frame < 2 ^ 52) :
    EntryAt ℓ (linkEntry frame)
  | huge {frame : Nat} (p : Permissions) (ha : frame % hugePageSize = 0)
    (hb : frame < 2 ^ 52) : EntryAt 2 (hugeEntry frame p)
  | page {frame : Nat} (p : Permissions) (ha : frame % 4096 = 0) (hb : frame < 2 ^ 52) :
    EntryAt 3 (pageEntry frame p)

/-- An empty entry links nothing. -/
@[simp] theorem linkOf_zero : linkOf 0 = none := rfl

/-- A link entry links its frame. -/
theorem linkOf_linkEntry {frame : Nat} (ha : frame % 4096 = 0) (hb : frame < 2 ^ 52) :
    linkOf (linkEntry frame) = some frame := by
  rw [linkOf, isPresent_linkEntry ha, isHuge_linkEntry ha, linkEntry_and_mask ha hb]
  rfl

/-- A huge entry links nothing. -/
theorem linkOf_hugeEntry {frame : Nat} (p : Permissions) (ha : frame % hugePageSize = 0)
    (hb : frame < 2 ^ 52) : linkOf (hugeEntry frame p) = none := by
  rw [linkOf, isHuge_hugeEntry p ha hb, Bool.not_true, Bool.and_false]
  rfl

/-- An empty entry maps nothing. -/
@[simp] theorem leafOf_zero (size : Nat) : leafOf 0 size = none := rfl

/-- A page entry maps its page. -/
theorem leafOf_pageEntry {frame : Nat} (p : Permissions) (ha : frame % 4096 = 0)
    (hb : frame < 2 ^ 52) : leafOf (pageEntry frame p) pageSize = some ⟨frame, p⟩ := by
  rw [leafOf, if_pos (isPresent_pageEntry p ha hb), frameOf_pageEntry p ha hb,
    entryPermissions_pageEntry p ha hb]

/-- A huge entry maps its page. -/
theorem leafOf_hugeEntry {frame : Nat} (p : Permissions) (ha : frame % hugePageSize = 0)
    (hb : frame < 2 ^ 52) : leafOf (hugeEntry frame p) hugePageSize = some ⟨frame, p⟩ := by
  rw [leafOf, if_pos (isPresent_hugeEntry p ha hb), frameOf_hugeEntry p ha hb,
    entryPermissions_hugeEntry p ha hb]

private theorem EntryAt.lt {ℓ e : Nat} (h : EntryAt ℓ e) : e < 2 ^ 64 := by
  cases h with
  | absent => decide
  | link hℓ ha hb => exact linkEntry_lt ha hb
  | huge p ha hb => exact hugeEntry_lt p ha hb
  | page p ha hb => exact pageEntry_lt p ha hb

namespace PageTables

/-- The tables as a tree of entries. -/
def tree (t : PageTables) : Radix Nat Nat := ⟨512, t.pml4, readEntry t.memory, linkOf⟩

/-- Frame `k` of the arena. -/
def frameAt (t : PageTables) (k : Nat) : Nat := t.arenaBase + k * pageSize

/-- The address is inside the arena. -/
def InArena (t : PageTables) (address : Nat) : Prop :=
  t.arenaBase ≤ address ∧ address < t.arenaBase + t.arenaFrames * pageSize

/-- The invariant of the builder. -/
structure WF (t : PageTables) : Prop where
  base_aligned : t.arenaBase % 4096 = 0
  below : t.arenaBase + t.arenaFrames * pageSize ≤ 2 ^ 52
  next_le : t.nextFrame ≤ t.arenaFrames
  separate : t.tree.Separate 3
  inArena : ∀ ℓ n f, ℓ ≤ 3 → t.tree.table ℓ n = some f →
    ∃ k < t.nextFrame, f = t.frameAt k
  fresh : ∀ k i, t.nextFrame ≤ k → k < t.arenaFrames → i < 512 →
    readEntry t.memory (t.frameAt k) i = 0
  entries : ∀ ℓ s e, ℓ ≤ 3 → t.tree.slot ℓ s = some e → EntryAt ℓ e

/-- The partial map that the tables represent. -/
def view (t : PageTables) : PageMap where
  page v := (t.tree.slot 3 v).bind fun e ↦ leafOf e pageSize
  huge h := (t.tree.slot 2 h).bind fun e ↦ if isHuge e then leafOf e hugePageSize else none
  tabled h := (t.tree.table 3 h).isSome

variable {t : PageTables} {ℓ n i f e : Nat}

/-- A table is page-aligned. -/
theorem WF.table_aligned (h : t.WF) (hℓ : ℓ ≤ 3) (ht : t.tree.table ℓ n = some f) :
    f % 4096 = 0 := by
  obtain ⟨k, -, rfl⟩ := h.inArena ℓ n f hℓ ht
  have := h.base_aligned
  simp only [frameAt, pageSize]
  omega

/-- The represented map is well formed. -/
theorem WF.view (h : t.WF) : t.view.WF where
  tabled_of_page v hp := by
    cases ht : t.tree.table 3 (v / 512) with
    | none =>
      have hs : t.tree.slot 3 v = none := by
        change (t.tree.table 3 (v / 512)).map _ = none
        rw [ht, Option.map_none]
      simp [PageTables.view, hs] at hp
    | some f => simp [PageTables.view, ht]
  huge_of_tabled s ht := by
    cases hs : t.tree.slot 2 s with
    | none => simp [PageTables.view, hs]
    | some e =>
      simp only [PageTables.view, Radix.table_succ, hs, Option.bind_some] at ht ⊢
      cases h.entries 2 s e (by decide) hs with
      | absent => simp
      | link _ ha _ => simp [isHuge_linkEntry ha]
      | huge p ha hb =>
        change (linkOf (hugeEntry _ p)).isSome = true at ht
        rw [linkOf_hugeEntry p ha hb] at ht
        cases ht

/-! ### Writing one entry -/

/-- The tables after one entry was written. -/
def poke (t : PageTables) (table index value : Nat) : PageTables :=
  { t with memory := t.memory.storeWord (table + index * 8) value }

private theorem written (ha : f % 4096 = 0) (hi : i < 512) (he : e < 2 ^ 64) :
    Radix.Written t.tree (t.poke f i e).tree (· % 4096 = 0) f i e where
  fan_eq := rfl
  root_eq := rfl
  link_eq := rfl
  read_same := Memory.loadWord_storeWord_same he
  read_other g j hg hj hne := by
    change j < 512 at hj
    exact Memory.loadWord_storeWord_disjoint (by omega)

/-- Writing an entry of an arena frame changes no byte outside the arena. -/
theorem poke_outside {k : Nat} (hk : k < t.arenaFrames) (hi : i < 512) {a : Nat}
    (ha : ¬ t.InArena a) : (t.poke (t.frameAt k) i e).memory a = t.memory a := by
  apply Memory.storeWord_outside
  have hle : (k + 1) * pageSize ≤ t.arenaFrames * pageSize := Nat.mul_le_mul_right _ hk
  simp only [frameAt, InArena, pageSize] at *
  omega

/-- What writing an empty entry of a table achieves when the new entry maps a page: that
slot changes, and no table appears. -/
structure LeafStep (t t' : PageTables) (ℓ s e : Nat) : Prop where
  wf : t'.WF
  table_eq : ∀ ℓ' n, ℓ' ≤ 3 → t'.tree.table ℓ' n = t.tree.table ℓ' n
  slot_eq : ∀ ℓ' s', ℓ' ≤ 3 →
    t'.tree.slot ℓ' s' = if ℓ' = ℓ ∧ s' = s then some e else t.tree.slot ℓ' s'

/-- Writing a page into an empty entry. -/
theorem WF.poke_leaf (h : t.WF) (hℓ : ℓ ≤ 3) (ht : t.tree.table ℓ n = some f) (hi : i < 512)
    (hold : readEntry t.memory f i = 0) (he : EntryAt ℓ e) (hleaf : ℓ < 3 → linkOf e = none) :
    LeafStep t (t.poke f i e) ℓ (n * 512 + i) e := by
  have ha := h.table_aligned hℓ ht
  have hw := written (t := t) ha hi he.lt
  have hP : ∀ ℓ n g, ℓ ≤ 3 → t.tree.table ℓ n = some g → g % 4096 = 0 :=
    fun _ _ _ hℓ hg ↦ h.table_aligned hℓ hg
  have hnone : ℓ < 3 → t.tree.link (t.tree.read f i) = none := by
    intro _
    change linkOf (readEntry t.memory f i) = none
    rw [hold, linkOf_zero]
  have htable : ∀ ℓ' n', ℓ' ≤ 3 → (t.poke f i e).tree.table ℓ' n' = t.tree.table ℓ' n' :=
    fun ℓ' n' hℓ' ↦ hw.table_of_leaf h.separate hP hℓ ht hi hnone hleaf hℓ' n'
  have hslot := fun ℓ' s (hℓ' : ℓ' ≤ 3) ↦
    hw.slot_of_leaf h.separate hP hℓ ht hi hnone hleaf hℓ' s
  refine ⟨⟨h.base_aligned, h.below, h.next_le,
    hw.separate_of_leaf h.separate hP hℓ ht hi hnone hleaf, ?_, ?_, ?_⟩, htable, hslot⟩
  · intro ℓ' n' g hℓ' hg
    rw [htable ℓ' n' hℓ'] at hg
    exact h.inArena ℓ' n' g hℓ' hg
  · intro k j hk hk' hj
    obtain ⟨k₀, hk₀, rfl⟩ := h.inArena ℓ n f hℓ ht
    have hb := h.base_aligned
    have hread := hw.read_other (t.frameAt k) j (by simp only [frameAt, pageSize]; omega) hj
      (by simp only [frameAt, pageSize]; change t.nextFrame ≤ k at hk; omega)
    exact hread.trans (h.fresh k j hk hk' hj)
  · intro ℓ' s e' hℓ' hs
    rw [hslot ℓ' s hℓ'] at hs
    split at hs
    · next heq =>
      cases hs
      rw [heq.1]
      exact he
    · exact h.entries ℓ' s e' hℓ' hs

/-- The tables after the next arena frame was taken. -/
def take (t : PageTables) : PageTables := { t with nextFrame := t.nextFrame + 1 }

/-- What linking a fresh frame achieves: that table appears, with empty slots. -/
structure LinkStep (t t' : PageTables) (ℓ s : Nat) : Prop where
  wf : t'.WF
  table_eq : ∀ ℓ' n, ℓ' ≤ 3 → t'.tree.table ℓ' n =
    if ℓ' = ℓ + 1 ∧ n = s then some (t.frameAt t.nextFrame) else t.tree.table ℓ' n
  slot_eq : ∀ ℓ' s', ℓ' ≤ 3 → t'.tree.slot ℓ' s' =
    if ℓ' = ℓ ∧ s' = s then some (linkEntry (t.frameAt t.nextFrame))
    else if ℓ' = ℓ + 1 ∧ s' / 512 = s then some 0 else t.tree.slot ℓ' s'

/-- Linking the next frame of the arena from an empty entry. -/
theorem WF.poke_link (h : t.WF) (hℓ : ℓ < 3) (ht : t.tree.table ℓ n = some f) (hi : i < 512)
    (hold : readEntry t.memory f i = 0) (hroom : t.nextFrame < t.arenaFrames) :
    LinkStep t (t.take.poke f i (linkEntry (t.frameAt t.nextFrame))) ℓ (n * 512 + i) := by
  let g := t.frameAt t.nextFrame
  have hb := h.base_aligned
  have hga : g % 4096 = 0 := by simp only [g, frameAt, pageSize]; omega
  have hgb : g < 2 ^ 52 := by
    have := h.below
    simp only [g, frameAt, pageSize] at *
    omega
  have hw : Radix.Written t.tree (t.take.poke f i (linkEntry g)).tree (· % 4096 = 0) f i
      (linkEntry g) :=
    written (t := t.take) (h.table_aligned (by omega) ht) hi (linkEntry_lt hga hgb)
  have hP : ∀ ℓ n g, ℓ ≤ 3 → t.tree.table ℓ n = some g → g % 4096 = 0 :=
    fun _ _ _ hℓ hg ↦ h.table_aligned hℓ hg
  have hnone : t.tree.link (t.tree.read f i) = none := by
    change linkOf (readEntry t.memory f i) = none
    rw [hold, linkOf_zero]
  have hnew : t.tree.link (linkEntry g) = some g := linkOf_linkEntry hga hgb
  have hfresh : ∀ ℓ n, ℓ ≤ 3 → t.tree.table ℓ n ≠ some g := by
    intro ℓ n hℓ hg
    obtain ⟨k, hk, he⟩ := h.inArena ℓ n g hℓ hg
    simp only [g, frameAt, pageSize] at he
    omega
  have hzero : ∀ j < 512, t.tree.read g j = 0 := fun j hj ↦
    h.fresh t.nextFrame j (Nat.le_refl _) hroom hj
  have hempty : ∀ j < t.tree.fan, t.tree.link (t.tree.read g j) = none := by
    intro j hj
    rw [hzero j hj]
    rfl
  have htable := fun ℓ' n' (hℓ' : ℓ' ≤ 3) ↦
    hw.table_of_link h.separate hP hga hℓ ht hi hnone hnew hfresh hempty hℓ' n'
  have hslot : ∀ ℓ' s', ℓ' ≤ 3 → (t.take.poke f i (linkEntry g)).tree.slot ℓ' s' =
      if ℓ' = ℓ ∧ s' = n * 512 + i then some (linkEntry g)
      else if ℓ' = ℓ + 1 ∧ s' / 512 = n * 512 + i then some 0 else t.tree.slot ℓ' s' := by
    intro ℓ' s' hℓ'
    have := hw.slot_of_link h.separate hP hga hℓ ht hi hnone hnew hfresh hempty hℓ' s'
    rw [hzero (s' % t.tree.fan) (Nat.mod_lt s' (by decide : 0 < 512))] at this
    exact this
  refine ⟨⟨h.base_aligned, h.below, hroom,
    hw.separate_of_link h.separate hP hga hℓ ht hi hnone hnew hfresh hempty, ?_, ?_, ?_⟩,
    htable, hslot⟩
  · intro ℓ' n' g' hℓ' hg'
    rw [htable ℓ' n' hℓ'] at hg'
    split at hg'
    · cases hg'
      exact ⟨t.nextFrame, Nat.lt_succ_self _, rfl⟩
    · obtain ⟨k, hk, he⟩ := h.inArena ℓ' n' g' hℓ' hg'
      exact ⟨k, Nat.lt_succ_of_lt hk, he⟩
  · intro k j hk hk' hj
    change t.nextFrame + 1 ≤ k at hk
    obtain ⟨k₀, hk₀, rfl⟩ := h.inArena ℓ n f (by omega) ht
    have hread := hw.read_other (t.frameAt k) j (by simp only [frameAt, pageSize]; omega) hj
      (by simp only [frameAt, pageSize]; omega)
    exact hread.trans (h.fresh k j (by omega) hk' hj)
  · intro ℓ' s e' hℓ' hs
    rw [hslot ℓ' s hℓ'] at hs
    split at hs
    · next heq =>
      cases hs
      rw [heq.1]
      exact .link hℓ hga hgb
    · split at hs
      · cases hs
        exact .absent
      · exact h.entries ℓ' s e' hℓ' hs

end PageTables
end LokoOS.Boot
