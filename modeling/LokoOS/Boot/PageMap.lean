import Mathlib.Logic.Function.Basic
import LokoOS.Boot.Paging

/-!
# What page tables are for

A partial map from virtual pages of two sizes to physical frames and permissions. Pages
are numbered by the 48 translated bits of their address, so that canonical addresses and
numbers determine each other.
-/

namespace LokoOS.Boot

/-- What a page maps to. -/
structure Leaf where
  frame : Nat
  permissions : Permissions
  deriving DecidableEq, Repr

/-- The number of the 4 KiB page of an address. -/
def pageNumber (address : Nat) : Nat := address / pageSize % 2 ^ 36

/-- The number of the 2 MiB page of an address. -/
def hugeNumber (address : Nat) : Nat := address / hugePageSize % 2 ^ 27

/-- A partial map over pages of two sizes. A 2 MiB slot may hold a table of 4 KiB pages,
mapped or not, and then maps nothing itself. -/
@[ext] structure PageMap where
  page : Nat → Option Leaf
  huge : Nat → Option Leaf
  tabled : Nat → Bool

namespace PageMap

/-- The empty map. -/
def empty : PageMap := ⟨fun _ ↦ none, fun _ ↦ none, fun _ ↦ false⟩

/-- The translation of an address. -/
def translate (m : PageMap) (address : Nat) : Option Translation :=
  if ¬ Canonical address then none else
  match m.page (pageNumber address) with
  | some leaf => some ⟨leaf.frame + address % pageSize, leaf.permissions⟩
  | none => (m.huge (hugeNumber address)).map fun leaf ↦
      ⟨leaf.frame + address % hugePageSize, leaf.permissions⟩

/-- A 4 KiB page lies in a slot that holds a table, and such a slot is no 2 MiB page. -/
structure WF (m : PageMap) : Prop where
  tabled_of_page : ∀ v, m.page v ≠ none → m.tabled (v / 512) = true
  huge_of_tabled : ∀ h, m.tabled h = true → m.huge h = none

/-- Give a 2 MiB slot a table. -/
def addTable (m : PageMap) (h : Nat) : PageMap :=
  { m with tabled := Function.update m.tabled h true }

/-- Map a 4 KiB page. -/
def setPage (m : PageMap) (v : Nat) (leaf : Leaf) : PageMap :=
  { m.addTable (v / 512) with page := Function.update m.page v (some leaf) }

/-- Map a 2 MiB page. -/
def setHuge (m : PageMap) (h : Nat) (leaf : Leaf) : PageMap :=
  { m with huge := Function.update m.huge h (some leaf) }

variable {m : PageMap} {v h : Nat} {leaf : Leaf}

/-- A slot that holds a table already may be given one. -/
theorem addTable_of_tabled (ht : m.tabled h = true) : m.addTable h = m := by
  rw [addTable, ← ht, Function.update_eq_self]

/-- The pages after mapping one. -/
theorem setPage_page (v' : Nat) :
    (m.setPage v leaf).page v' = if v' = v then some leaf else m.page v' := by
  simp [setPage, Function.update_apply]

/-- Mapping a 4 KiB page keeps the 2 MiB pages. -/
@[simp] theorem setPage_huge : (m.setPage v leaf).huge = m.huge := rfl

/-- The slots with tables after mapping a page. -/
theorem setPage_tabled (h' : Nat) :
    (m.setPage v leaf).tabled h' = if h' = v / 512 then true else m.tabled h' := by
  simp [setPage, addTable, Function.update_apply]

/-- The 2 MiB pages after mapping one. -/
theorem setHuge_huge (h' : Nat) :
    (m.setHuge h leaf).huge h' = if h' = h then some leaf else m.huge h' := by
  simp [setHuge, Function.update_apply]

/-- Mapping a 2 MiB page keeps the 4 KiB pages. -/
@[simp] theorem setHuge_page : (m.setHuge h leaf).page = m.page := rfl

/-- Mapping a 2 MiB page keeps the slots with tables. -/
@[simp] theorem setHuge_tabled : (m.setHuge h leaf).tabled = m.tabled := rfl

/-- Mapping a 2 MiB page where there is no table keeps the map well formed. -/
theorem WF.setHuge (hm : m.WF) (ht : m.tabled h = false) : (m.setHuge h leaf).WF where
  tabled_of_page := hm.tabled_of_page
  huge_of_tabled h' ht' := by
    rw [setHuge_tabled] at ht'
    rw [setHuge_huge, if_neg (by rintro rfl; rw [ht] at ht'; cases ht')]
    exact hm.huge_of_tabled h' ht'

private theorem WF.page_none (hm : m.WF) (hh : m.huge (v / 512) ≠ none) : m.page v = none := by
  cases hp : m.page v with
  | none => rfl
  | some l => exact absurd (hm.huge_of_tabled _ (hm.tabled_of_page v (by simp [hp]))) hh

/-! ### Translations of a page -/

private theorem pageNumber_eq_iff {base address : Nat} (hb : Canonical base)
    (ha : base % pageSize = 0)
    (hc : Canonical address) :
    pageNumber address = pageNumber base ↔ base ≤ address ∧ address < base + pageSize := by
  simp only [pageNumber, Canonical, pageSize] at *
  omega

private theorem hugeNumber_eq_iff {base address : Nat} (hb : Canonical base)
    (ha : base % hugePageSize = 0) (hc : Canonical address) :
    hugeNumber address = hugeNumber base ↔ base ≤ address ∧ address < base + hugePageSize := by
  simp only [hugeNumber, Canonical, hugePageSize] at *
  omega

private theorem canonical_of_page {base address : Nat} (hb : Canonical base)
    (ha : base % pageSize = 0)
    (h : base ≤ address ∧ address < base + pageSize) : Canonical address := by
  simp only [Canonical, pageSize] at *
  omega

private theorem canonical_of_hugePage {base address : Nat} (hb : Canonical base)
    (ha : base % hugePageSize = 0) (h : base ≤ address ∧ address < base + hugePageSize) :
    Canonical address := by
  simp only [Canonical, hugePageSize] at *
  omega

/-- Every 4 KiB page lies in one 2 MiB page. -/
theorem hugeNumber_eq (address : Nat) : hugeNumber address = pageNumber address / 512 := by
  simp only [hugeNumber, pageNumber, hugePageSize, pageSize]
  omega

/-- The translation of an address in a 2 MiB page. -/
theorem translate_of_huge (hm : m.WF) {address : Nat} (hc : Canonical address)
    (hh : m.huge (hugeNumber address) = some leaf) :
    m.translate address = some ⟨leaf.frame + address % hugePageSize, leaf.permissions⟩ := by
  have hp : m.page (pageNumber address) = none :=
    hm.page_none (by rw [← hugeNumber_eq, hh]; simp)
  rw [translate, if_neg (not_not_intro hc), hp, hh, Option.map_some]

/-- A translated address lies in a page of one of the sizes. -/
theorem translate_eq_some {address : Nat} {tr : Translation}
    (h : m.translate address = some tr) : Canonical address ∧
      ((∃ l, m.page (pageNumber address) = some l ∧
          tr = ⟨l.frame + address % pageSize, l.permissions⟩) ∨
        ∃ l, m.huge (hugeNumber address) = some l ∧
          tr = ⟨l.frame + address % hugePageSize, l.permissions⟩) := by
  rw [translate] at h
  split at h
  · cases h
  · next hc =>
    refine ⟨Decidable.not_not.mp hc, ?_⟩
    split at h
    · next l hp => exact .inl ⟨l, hp, (Option.some.inj h).symm⟩
    · obtain ⟨l, hh, he⟩ := Option.map_eq_some_iff.mp h
      exact .inr ⟨l, hh, he.symm⟩

/-- Mapping a 4 KiB page translates its addresses and changes no other translation. -/
theorem translate_setPage {base : Nat} (hb : Canonical base) (ha : base % pageSize = 0)
    (address : Nat) :
    (m.setPage (pageNumber base) leaf).translate address =
      if base ≤ address ∧ address < base + pageSize then
        some ⟨leaf.frame + (address - base), leaf.permissions⟩
      else m.translate address := by
  by_cases hc : Canonical address
  · have hiff := pageNumber_eq_iff hb ha hc
    rw [translate, translate, setPage_page, setPage_huge]
    simp only [not_true_eq_false, hc, ↓reduceIte, hiff]
    by_cases h : base ≤ address ∧ address < base + pageSize
    · have hoff : address % pageSize = address - base := by
        simp only [pageSize] at ha h ⊢
        omega
      rw [if_pos h, if_pos h, hoff]
    · rw [if_neg h, if_neg h]
  · rw [if_neg fun h ↦ hc (canonical_of_page hb ha h), translate, translate, if_pos hc, if_pos hc]

/-- Mapping a 2 MiB page without a table translates its addresses and changes no other
translation. -/
theorem translate_setHuge {base : Nat} (hm : m.WF) (hb : Canonical base)
    (ha : base % hugePageSize = 0) (ht : m.tabled (hugeNumber base) = false) (address : Nat) :
    (m.setHuge (hugeNumber base) leaf).translate address =
      if base ≤ address ∧ address < base + hugePageSize then
        some ⟨leaf.frame + (address - base), leaf.permissions⟩
      else m.translate address := by
  by_cases hc : Canonical address
  · have hiff := hugeNumber_eq_iff hb ha hc
    rw [translate, translate, setHuge_page, setHuge_huge]
    simp only [not_true_eq_false, hc, ↓reduceIte, hiff]
    by_cases h : base ≤ address ∧ address < base + hugePageSize
    · have hoff : address % hugePageSize = address - base := by
        simp only [hugePageSize] at ha h ⊢
        omega
      have hset : (m.setHuge (hugeNumber base) leaf).WF := hm.setHuge ht
      have hnone : (m.setHuge (hugeNumber base) leaf).page (pageNumber address) = none := by
        apply hset.page_none
        rw [← hugeNumber_eq, setHuge_huge, if_pos (hiff.mpr h)]
        simp
      rw [setHuge_page] at hnone
      rw [if_pos h, if_pos h, hnone, hoff, Option.map_some]
    · rw [if_neg h, if_neg h]
  · rw [if_neg fun h ↦ hc (canonical_of_hugePage hb ha h), translate, translate, if_pos hc,
      if_pos hc]

/-- The addresses of an unmapped 4 KiB page outside every 2 MiB page are unmapped. -/
theorem translate_of_page_none {base address : Nat} (hb : Canonical base)
    (ha : base % pageSize = 0) (hp : m.page (pageNumber base) = none)
    (hh : m.huge (hugeNumber base) = none)
    (h : base ≤ address ∧ address < base + pageSize) : m.translate address = none := by
  have hc := canonical_of_page hb ha h
  have he := (pageNumber_eq_iff hb ha hc).mpr h
  rw [translate, hugeNumber_eq, he, hp, ← hugeNumber_eq, hh]
  simp

/-- The addresses of an unmapped 2 MiB page without a table are unmapped. -/
theorem translate_of_huge_none {base address : Nat} (hm : m.WF) (hb : Canonical base)
    (ha : base % hugePageSize = 0) (ht : m.tabled (hugeNumber base) = false)
    (hh : m.huge (hugeNumber base) = none)
    (h : base ≤ address ∧ address < base + hugePageSize) : m.translate address = none := by
  have hc := canonical_of_hugePage hb ha h
  have he := (hugeNumber_eq_iff hb ha hc).mpr h
  have hnone : m.page (pageNumber address) = none := by
    cases hp : m.page (pageNumber address) with
    | none => rfl
    | some l =>
      have htab := hm.tabled_of_page (pageNumber address) (by simp [hp])
      rw [← hugeNumber_eq, he, ht] at htab
      cases htab
  rw [translate, hnone, he, hh]
  simp

end PageMap
end LokoOS.Boot
