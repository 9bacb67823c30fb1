import LokoOS.Boot.Walk

/-!
# Loads and stores through the tables

What the hardware makes of an access once the tables of `boot/loko-boot/src/paging.rs` are
loaded. A byte is read and written at the address its walk gives, so a store that stays out
of the arena changes no translation.
-/

namespace LokoOS.Boot
open LokoOS.Base

/-- Read the byte at a virtual address; an address that is not mapped is a page fault. -/
def loadByte (memory : Memory) (cr3 address : Nat) : Option UInt8 :=
  (walk memory cr3 address).map fun t ↦ memory t.address

/-- Read the bytes from a virtual address up. -/
def loadBytes (memory : Memory) (cr3 address : Nat) : Nat → Option (List UInt8)
  | 0 => some []
  | n + 1 => do
    let byte ← loadByte memory cr3 address
    let rest ← loadBytes memory cr3 (address + 1) n
    return byte :: rest

/-- Write a byte at a virtual address; an address that is not mapped writable is a page
fault. -/
def storeByte (memory : Memory) (cr3 address : Nat) (byte : UInt8) : Option Memory := do
  let t ← walk memory cr3 address
  if t.permissions.writable then return memory.store t.address [byte] else none

variable {memory : Memory} {cr3 : Nat}

/-- A byte that is mapped is read. -/
theorem loadByte_of_walk {address physical : Nat} {p : Permissions}
    (h : walk memory cr3 address = some ⟨physical, p⟩) :
    loadByte memory cr3 address = some (memory physical) := by
  rw [loadByte, h, Option.map_some]

/-- A byte that is mapped writable is written. -/
theorem storeByte_of_walk {address physical : Nat} {p : Permissions}
    (h : walk memory cr3 address = some ⟨physical, p⟩) (hw : p.writable = true) (byte : UInt8) :
    storeByte memory cr3 address byte = some (memory.store physical [byte]) := by
  rw [storeByte, h]
  exact if_pos hw

/-- Bytes that are mapped side by side are read together. -/
theorem loadBytes_of_walk {address physical n : Nat} {p : Permissions}
    (h : ∀ i < n, walk memory cr3 (address + i) = some ⟨physical + i, p⟩) :
    loadBytes memory cr3 address n = some (memory.load physical n) := by
  induction n generalizing address physical with
  | zero => rfl
  | succ n ih =>
    have hrest : loadBytes memory cr3 (address + 1) n = some (memory.load (physical + 1) n) := by
      refine ih fun i hi ↦ ?_
      have := h (i + 1) (by omega)
      rwa [← Nat.add_assoc, ← Nat.add_assoc, Nat.add_right_comm, Nat.add_right_comm _ i] at this
    have hfirst : walk memory cr3 address = some ⟨physical, p⟩ := h 0 (by omega)
    rw [loadBytes, loadByte_of_walk hfirst, hrest]
    simp only [Memory.load, List.range_succ_eq_map, List.map_cons, List.map_map, Nat.add_zero]
    refine congrArg some (congrArg _ (List.map_congr_left fun i _ ↦ ?_))
    change memory (physical + 1 + i) = memory (physical + (i + 1))
    rw [Nat.add_assoc, Nat.add_comm 1]

/-! ### Stores outside the arena -/

namespace PageTables

variable {t : PageTables} {ℓ n f i : Nat}

/-- The tables with other bytes around them. -/
def within (t : PageTables) (memory : Memory) : PageTables := { t with memory := memory }

private theorem readEntry_frameAt (h : ∀ a, t.InArena a → memory a = t.memory a) {k : Nat}
    (hk : k < t.arenaFrames) (hi : i < 512) :
    readEntry memory (t.frameAt k) i = readEntry t.memory (t.frameAt k) i := by
  have hle : (k + 1) * pageSize ≤ t.arenaFrames * pageSize := Nat.mul_le_mul_right _ hk
  refine congrArg fromLeBytes (Memory.load_congr fun j hj ↦ h _ ?_)
  simp only [InArena, frameAt, pageSize] at *
  omega

private theorem WF.agrees (hwf : t.WF) (h : ∀ a, t.InArena a → memory a = t.memory a) :
    Radix.Agrees t.tree (t.within memory).tree 3 where
  fan_pos := hwf.separate.fan_pos
  fan_eq := rfl
  root_eq := rfl
  link_eq := rfl
  read_eq ℓ n f i hℓ hf hi := by
    obtain ⟨k, hk, rfl⟩ := hwf.inArena ℓ n f hℓ hf
    exact readEntry_frameAt h (Nat.lt_of_lt_of_le hk hwf.next_le) hi

private theorem WF.within (hwf : t.WF) (h : ∀ a, t.InArena a → memory a = t.memory a) :
    (t.within memory).WF where
  base_aligned := hwf.base_aligned
  below := hwf.below
  next_le := hwf.next_le
  separate := (hwf.agrees h).separate hwf.separate
  inArena ℓ n f hℓ hf := by
    rw [(hwf.agrees h).table_eq hℓ] at hf
    exact hwf.inArena ℓ n f hℓ hf
  fresh k i hk hk' hi := (readEntry_frameAt h hk' hi).trans (hwf.fresh k i hk hk' hi)
  entries ℓ s e hℓ hs := by
    rw [(hwf.agrees h).slot_eq hℓ] at hs
    exact hwf.entries ℓ s e hℓ hs

private theorem WF.view_within (hwf : t.WF) (h : ∀ a, t.InArena a → memory a = t.memory a) :
    (t.within memory).view = t.view := by
  have hagrees := hwf.agrees h
  unfold PageTables.view
  simp only [hagrees.slot_eq (show 3 ≤ 3 by decide), hagrees.slot_eq (show 2 ≤ 3 by decide),
    hagrees.table_eq (show 3 ≤ 3 by decide)]

/-- Only the bytes of the arena decide a translation. -/
theorem WF.walk_congr (hwf : t.WF) (h : ∀ a, t.InArena a → memory a = t.memory a)
    (address : Nat) : walk memory t.cr3Value address = walk t.memory t.cr3Value address := by
  rw [walk_eq hwf, ← hwf.view_within h, ← walk_eq (hwf.within h)]
  rfl

end PageTables
end LokoOS.Boot
