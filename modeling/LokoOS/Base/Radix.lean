/-!
# Radix trees of tables in memory

Library `Base`. A tree of tables with `fan` entries each, where an entry may link to a
table of the next level. Table `n` of level `ℓ` is the one reached along the digits of
`n` in base `fan`, and slot `s` of level `ℓ` is entry `s % fan` of table `s / fan`. While
no table is reached in two ways, one write changes one slot.
-/

namespace LokoOS.Base

/-- A root table, how entries are read and which table an entry links to. -/
structure Radix (ι α : Type) where
  fan : Nat
  root : ι
  read : ι → Nat → α
  link : α → Option ι

namespace Radix

variable {ι α : Type}

/-- Table `n` of a level. -/
def table (r : Radix ι α) : Nat → Nat → Option ι
  | 0, n => if n = 0 then some r.root else none
  | ℓ + 1, n => ((r.table ℓ (n / r.fan)).map fun t ↦ r.read t (n % r.fan)).bind r.link

/-- The entry in slot `s` of a level. -/
def slot (r : Radix ι α) (ℓ s : Nat) : Option α :=
  (r.table ℓ (s / r.fan)).map fun t ↦ r.read t (s % r.fan)

/-- A table below the root is linked from its slot. -/
theorem table_succ (r : Radix ι α) (ℓ n : Nat) : r.table (ℓ + 1) n = (r.slot ℓ n).bind r.link :=
  rfl

private theorem slot_div {b n i : Nat} (hi : i < b) : (n * b + i) / b = n := by
  rw [Nat.mul_comm, Nat.mul_add_div (by omega), Nat.div_eq_of_lt hi, Nat.add_zero]

private theorem slot_mod {b n i : Nat} (hi : i < b) : (n * b + i) % b = i := by
  rw [Nat.mul_comm, Nat.mul_add_mod, Nat.mod_eq_of_lt hi]

/-- An entry of a table is in the slot of its number. -/
theorem slot_of_table {r : Radix ι α} {ℓ n i : Nat} {t : ι} (ht : r.table ℓ n = some t)
    (hi : i < r.fan) : r.slot ℓ (n * r.fan + i) = some (r.read t i) := by
  rw [slot, slot_div hi, slot_mod hi, ht, Option.map_some]

/-- A slot in use belongs to a table. -/
theorem slot_eq_some {r : Radix ι α} {ℓ s : Nat} {e : α} :
    r.slot ℓ s = some e ↔ ∃ t, r.table ℓ (s / r.fan) = some t ∧ r.read t (s % r.fan) = e :=
  Option.map_eq_some_iff

/-- Down to a depth, tables have room for entries and none is reached in two ways. -/
structure Separate (r : Radix ι α) (depth : Nat) : Prop where
  fan_pos : 0 < r.fan
  inj : ∀ ℓ ℓ' n n' t, ℓ ≤ depth → ℓ' ≤ depth → r.table ℓ n = some t →
    r.table ℓ' n' = some t → ℓ = ℓ' ∧ n = n'

/-- Tree `r'` is `r` after entry `i` of table `t` became `e`; among the tables that satisfy
`P` no other entry changed. -/
structure Written (r r' : Radix ι α) (P : ι → Prop) (t : ι) (i : Nat) (e : α) : Prop where
  fan_eq : r'.fan = r.fan
  root_eq : r'.root = r.root
  link_eq : r'.link = r.link
  read_same : r'.read t i = e
  read_other : ∀ t' j, P t' → j < r.fan → ¬ (t' = t ∧ j = i) → r'.read t' j = r.read t' j

variable {r r' : Radix ι α} {P : ι → Prop} {depth ℓ n i : Nat} {t g : ι} {e : α}

private theorem map_read_of_ne (hs : r.Separate depth) (hw : Written r r' P t i e)
    (hP : ∀ ℓ n t, ℓ ≤ depth → r.table ℓ n = some t → P t) (hℓ : ℓ ≤ depth)
    (ht : r.table ℓ n = some t) {ℓ' s : Nat} (hℓ' : ℓ' ≤ depth)
    (hne : ¬ (ℓ' = ℓ ∧ s = n * r.fan + i)) :
    (r.table ℓ' (s / r.fan)).map (fun t' ↦ r'.read t' (s % r.fan)) = r.slot ℓ' s := by
  rw [slot]
  cases ht' : r.table ℓ' (s / r.fan) with
  | none => rfl
  | some t' =>
    rw [Option.map_some, Option.map_some,
      hw.read_other t' _ (hP _ _ _ hℓ' ht') (Nat.mod_lt _ hs.fan_pos)]
    rintro ⟨rfl, hmod⟩
    obtain ⟨rfl, hdiv⟩ := hs.inj _ _ _ _ _ hℓ' hℓ ht' ht
    have he := Nat.div_add_mod s r.fan
    rw [hdiv, hmod, Nat.mul_comm] at he
    exact hne ⟨rfl, he.symm⟩

/-! ### Writing an entry that does not link -/

section Leaf

variable (hs : r.Separate depth) (hw : Written r r' P t i e)
  (hP : ∀ ℓ n t, ℓ ≤ depth → r.table ℓ n = some t → P t) (hℓ : ℓ ≤ depth)
  (ht : r.table ℓ n = some t) (hi : i < r.fan)
  (hold : ℓ < depth → r.link (r.read t i) = none) (hnew : ℓ < depth → r.link e = none)

include hs hw hP hℓ ht hi hold hnew

/-- Replacing an entry that links to nothing by another such entry keeps the tables; at the
last level every entry counts as such. -/
theorem Written.table_of_leaf {ℓ' : Nat} (hℓ' : ℓ' ≤ depth) (n' : Nat) :
    r'.table ℓ' n' = r.table ℓ' n' := by
  induction ℓ' generalizing n' with
  | zero => rw [table, table, hw.root_eq]
  | succ ℓ' ih =>
    rw [table, ih (by omega), hw.fan_eq, hw.link_eq, table_succ]
    by_cases hne : ℓ' = ℓ ∧ n' = n * r.fan + i
    · obtain ⟨rfl, rfl⟩ := hne
      have hslot := slot_of_table ht hi
      obtain ⟨t', ht', -⟩ := slot_eq_some.mp hslot
      rw [hslot, slot_div hi, slot_mod hi, ht, Option.map_some, hw.read_same, Option.bind_some,
        Option.bind_some, hold (by omega), hnew (by omega)]
    · rw [map_read_of_ne hs hw hP hℓ ht (by omega) hne]

/-- Such a write changes its slot only. -/
theorem Written.slot_of_leaf {ℓ' : Nat} (hℓ' : ℓ' ≤ depth) (s : Nat) :
    r'.slot ℓ' s = if ℓ' = ℓ ∧ s = n * r.fan + i then some e else r.slot ℓ' s := by
  have htable := fun n' ↦ hw.table_of_leaf hs hP hℓ ht hi hold hnew hℓ' n'
  split
  · next h =>
    obtain ⟨rfl, rfl⟩ := h
    rw [← hw.fan_eq, slot_of_table ((htable n).trans ht) (hw.fan_eq ▸ hi), hw.read_same]
  · next h => rw [slot, htable, hw.fan_eq, map_read_of_ne hs hw hP hℓ ht hℓ' h]

/-- Such a write keeps the tables apart. -/
theorem Written.separate_of_leaf : r'.Separate depth where
  fan_pos := hw.fan_eq ▸ hs.fan_pos
  inj ℓ₁ ℓ₂ n₁ n₂ t' h₁ h₂ ht₁ ht₂ := by
    rw [hw.table_of_leaf hs hP hℓ ht hi hold hnew h₁] at ht₁
    rw [hw.table_of_leaf hs hP hℓ ht hi hold hnew h₂] at ht₂
    exact hs.inj ℓ₁ ℓ₂ n₁ n₂ t' h₁ h₂ ht₁ ht₂

end Leaf

/-! ### Linking a fresh table -/

section Link

variable (hs : r.Separate depth) (hw : Written r r' P t i e)
  (hP : ∀ ℓ n t, ℓ ≤ depth → r.table ℓ n = some t → P t) (hg : P g) (hℓ : ℓ < depth)
  (ht : r.table ℓ n = some t) (hi : i < r.fan) (hold : r.link (r.read t i) = none)
  (hnew : r.link e = some g) (hfresh : ∀ ℓ n, ℓ ≤ depth → r.table ℓ n ≠ some g)
  (hempty : ∀ j < r.fan, r.link (r.read g j) = none)

include hs hw hP hg hℓ ht hi hold hnew hfresh hempty

/-- Linking a table that the tree does not use and that links to nothing itself adds that
table and no other. -/
theorem Written.table_of_link {ℓ' : Nat} (hℓ' : ℓ' ≤ depth) (n' : Nat) :
    r'.table ℓ' n' =
      if ℓ' = ℓ + 1 ∧ n' = n * r.fan + i then some g else r.table ℓ' n' := by
  have htg : t ≠ g := by
    rintro rfl
    exact hfresh ℓ n (by omega) ht
  induction ℓ' generalizing n' with
  | zero => rw [if_neg (by omega), table, table, hw.root_eq]
  | succ ℓ' ih =>
    rw [table, ih (by omega), hw.fan_eq, hw.link_eq]
    by_cases hchild : ℓ' = ℓ + 1 ∧ n' / r.fan = n * r.fan + i
    · -- the new table has no children, and its slots had no table before
      have hnone : r.table ℓ' (n' / r.fan) = none := by
        rw [hchild.1, hchild.2, table_succ, slot_of_table ht hi, Option.bind_some, hold]
      rw [if_pos hchild, if_neg (by omega), table_succ, slot, hnone, Option.map_some,
        hw.read_other g _ hg (Nat.mod_lt _ hs.fan_pos) (fun h ↦ htg h.1.symm),
        Option.bind_some, hempty _ (Nat.mod_lt _ hs.fan_pos)]
      rfl
    · rw [if_neg hchild]
      by_cases hne : ℓ' = ℓ ∧ n' = n * r.fan + i
      · obtain ⟨rfl, rfl⟩ := hne
        rw [slot_div hi, slot_mod hi, ht, Option.map_some, hw.read_same, Option.bind_some, hnew,
          if_pos ⟨rfl, rfl⟩]
      · rw [map_read_of_ne hs hw hP (by omega) ht (by omega) hne, if_neg (by omega), table_succ]

/-- Linking a fresh table changes the slot it is linked from and adds its own slots. -/
theorem Written.slot_of_link {ℓ' : Nat} (hℓ' : ℓ' ≤ depth) (s : Nat) :
    r'.slot ℓ' s =
      if ℓ' = ℓ ∧ s = n * r.fan + i then some e
      else if ℓ' = ℓ + 1 ∧ s / r.fan = n * r.fan + i then some (r.read g (s % r.fan))
      else r.slot ℓ' s := by
  have htg : t ≠ g := by
    rintro rfl
    exact hfresh ℓ n (by omega) ht
  have htable := fun n' ↦ hw.table_of_link hs hP hg hℓ ht hi hold hnew hfresh hempty hℓ' n'
  split
  · next h =>
    obtain ⟨rfl, rfl⟩ := h
    have ht' : r'.table ℓ' n = some t := by
      rw [htable, if_neg (by omega), ht]
    rw [← hw.fan_eq, slot_of_table ht' (hw.fan_eq ▸ hi), hw.read_same]
  · next h =>
    rw [slot, hw.fan_eq, htable]
    split
    · rw [Option.map_some,
        hw.read_other g _ hg (Nat.mod_lt _ hs.fan_pos) (fun hgt ↦ htg hgt.1.symm)]
    · rw [map_read_of_ne hs hw hP (by omega) ht hℓ' h]

/-- Linking a fresh table keeps the tables apart. -/
theorem Written.separate_of_link : r'.Separate depth where
  fan_pos := hw.fan_eq ▸ hs.fan_pos
  inj ℓ₁ ℓ₂ n₁ n₂ t' h₁ h₂ ht₁ ht₂ := by
    rw [hw.table_of_link hs hP hg hℓ ht hi hold hnew hfresh hempty h₁] at ht₁
    rw [hw.table_of_link hs hP hg hℓ ht hi hold hnew hfresh hempty h₂] at ht₂
    split at ht₁ <;> split at ht₂
    · next hnew₁ hnew₂ => exact ⟨by omega, by omega⟩
    · cases ht₁
      exact absurd ht₂ (hfresh ℓ₂ n₂ h₂)
    · cases ht₂
      exact absurd ht₁ (hfresh ℓ₁ n₁ h₁)
    · exact hs.inj ℓ₁ ℓ₂ n₁ n₂ t' h₁ h₂ ht₁ ht₂

end Link

/-! ### Trees that read the same -/

/-- Tree `r'` has the shape of `r` and reads the same entries in the tables of `r`. -/
structure Agrees (r r' : Radix ι α) (depth : Nat) : Prop where
  fan_pos : 0 < r.fan
  fan_eq : r'.fan = r.fan
  root_eq : r'.root = r.root
  link_eq : r'.link = r.link
  read_eq : ∀ ℓ n t i, ℓ ≤ depth → r.table ℓ n = some t → i < r.fan → r'.read t i = r.read t i

/-- Trees that read the same have the same tables. -/
theorem Agrees.table_eq (h : Agrees r r' depth) (hℓ : ℓ ≤ depth) (n : Nat) :
    r'.table ℓ n = r.table ℓ n := by
  induction ℓ generalizing n with
  | zero => rw [table, table, h.root_eq]
  | succ ℓ ih =>
    rw [table, table, ih (by omega), h.fan_eq, h.link_eq]
    cases ht : r.table ℓ (n / r.fan) with
    | none => rfl
    | some t =>
      rw [Option.map_some, Option.map_some,
        h.read_eq ℓ _ t _ (by omega) ht (Nat.mod_lt _ h.fan_pos)]

/-- Trees that read the same have the same entries. -/
theorem Agrees.slot_eq (h : Agrees r r' depth) (hℓ : ℓ ≤ depth) (s : Nat) :
    r'.slot ℓ s = r.slot ℓ s := by
  rw [slot, slot, h.table_eq hℓ, h.fan_eq]
  cases ht : r.table ℓ (s / r.fan) with
  | none => rfl
  | some t =>
    rw [Option.map_some, Option.map_some, h.read_eq ℓ _ t _ hℓ ht (Nat.mod_lt _ h.fan_pos)]

/-- Trees that read the same keep their tables apart alike. -/
theorem Agrees.separate (h : Agrees r r' depth) (hs : r.Separate depth) : r'.Separate depth where
  fan_pos := h.fan_eq ▸ hs.fan_pos
  inj ℓ₁ ℓ₂ n₁ n₂ t' h₁ h₂ ht₁ ht₂ := by
    rw [h.table_eq h₁] at ht₁
    rw [h.table_eq h₂] at ht₂
    exact hs.inj ℓ₁ ℓ₂ n₁ n₂ t' h₁ h₂ ht₁ ht₂

end Radix
end LokoOS.Base
