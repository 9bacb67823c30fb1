import Mathlib.Algebra.Ring.Nat

/-!
# Little-endian words in a flat byte memory

Library `Base`. A memory gives a byte at every address. Storing a list of bytes changes
those addresses and no others; a little-endian word is the number its bytes spell.
-/

namespace LokoOS.Base

/-- The number that a list of bytes spells, low byte first. -/
def fromLeBytes : List UInt8 → Nat
  | [] => 0
  | b :: bs => b.toNat + 256 * fromLeBytes bs

/-- The low `n` bytes of a number, low byte first. -/
def toLeBytes : Nat → Nat → List UInt8
  | 0, _ => []
  | n + 1, v => UInt8.ofNat (v % 256) :: toLeBytes n (v / 256)

/-- The width of the encoding. -/
@[simp] theorem length_toLeBytes (n v : Nat) : (toLeBytes n v).length = n := by
  induction n generalizing v with
  | zero => rfl
  | succ n ih => rw [toLeBytes, List.length_cons, ih]

/-- Decoding an encoding gives the number, reduced to the width. -/
theorem fromLeBytes_toLeBytes (n v : Nat) : fromLeBytes (toLeBytes n v) = v % 256 ^ n := by
  induction n generalizing v with
  | zero => simp [toLeBytes, fromLeBytes, Nat.mod_one]
  | succ n ih =>
    have hbyte : (UInt8.ofNat (v % 256)).toNat = v % 256 :=
      UInt8.toNat_ofNat_of_lt (Nat.mod_lt _ (by decide))
    rw [toLeBytes, fromLeBytes, ih, hbyte, Nat.pow_succ, Nat.mul_comm (256 ^ n) 256, Nat.mod_mul]

/-- A list of bytes spells a number below the width. -/
theorem fromLeBytes_lt (bs : List UInt8) : fromLeBytes bs < 256 ^ bs.length := by
  induction bs with
  | nil => exact Nat.one_pos
  | cons b bs ih =>
    have hb : b.toNat < 256 := b.toNat_lt
    rw [fromLeBytes, List.length_cons, Nat.pow_succ]
    omega

/-- A byte at every address. -/
def Memory : Type := Nat → UInt8

namespace Memory

/-- Store a list of bytes from an address up. -/
def store (m : Memory) (address : Nat) (bytes : List UInt8) : Memory := fun a ↦
  if address ≤ a then bytes.getD (a - address) (m a) else m a

/-- The `n` bytes from an address up. -/
def load (m : Memory) (address n : Nat) : List UInt8 :=
  (List.range n).map fun i ↦ m (address + i)

/-- The 64-bit word at an address. -/
def loadWord (m : Memory) (address : Nat) : Nat := fromLeBytes (m.load address 8)

/-- Store a 64-bit word at an address. -/
def storeWord (m : Memory) (address value : Nat) : Memory := m.store address (toLeBytes 8 value)

variable {m : Memory} {address a n : Nat} {bytes : List UInt8}

/-- A stored byte is read back. -/
theorem store_inside {i : Nat} (hi : i < bytes.length) :
    m.store address bytes (address + i) = bytes.get ⟨i, hi⟩ := by
  rw [store, if_pos (by omega), Nat.add_sub_cancel_left]
  simp [hi]

/-- A store leaves the other bytes alone. -/
theorem store_outside (h : a < address ∨ address + bytes.length ≤ a) :
    m.store address bytes a = m a := by
  unfold store
  split
  · rw [List.getD_eq_getElem?_getD, List.getElem?_eq_none (by omega), Option.getD_none]
  · rfl

/-- Storing nothing changes nothing. -/
@[simp] theorem store_nil : m.store address [] = m := by
  funext a
  exact store_outside (Nat.lt_or_ge a address)

/-- Two stores side by side are one store of both. -/
theorem store_append {bytes' : List UInt8} :
    (m.store address bytes).store (address + bytes.length) bytes' =
      m.store address (bytes ++ bytes') := by
  funext a
  by_cases h : address + bytes.length ≤ a
  · have hle : address ≤ a := by omega
    have hoff : bytes.length ≤ a - address := by omega
    simp only [store, if_pos h, if_pos hle, List.getD_eq_getElem?_getD,
      List.getElem?_append_right hoff, List.getElem?_eq_none hoff, Option.getD_none,
      Nat.sub_sub]
  · rw [store_outside (by omega)]
    by_cases hle : address ≤ a
    · have hin : a - address < bytes.length := by omega
      simp only [store, if_pos hle, List.getD_eq_getElem?_getD, List.getElem?_append_left hin]
    · rw [store_outside (by omega), store_outside (by omega)]

/-- How many bytes are loaded. -/
@[simp] theorem length_load : (m.load address n).length = n := by simp [load]

/-- Loads from memories that agree on the bytes loaded are equal. -/
theorem load_congr {m' : Memory} (h : ∀ i < n, m (address + i) = m' (address + i)) :
    m.load address n = m'.load address n :=
  List.map_congr_left fun i hi ↦ h i (List.mem_range.mp hi)

/-- Loading what was stored gives it back. -/
theorem load_store_same (m : Memory) (address : Nat) (bytes : List UInt8) :
    (m.store address bytes).load address bytes.length = bytes := by
  apply List.ext_getElem (by simp)
  intro i h₁ h₂
  have hbyte : m.store address bytes (address + i) = bytes.get ⟨i, h₂⟩ := store_inside h₂
  simpa [load] using hbyte

/-- Loading next to a store ignores it. -/
theorem load_store_disjoint (h : a + n ≤ address ∨ address + bytes.length ≤ a) :
    (m.store address bytes).load a n = m.load a n :=
  load_congr fun i hi ↦ store_outside (by omega)

/-- A stored number is read back, reduced to a word. -/
theorem loadWord_storeWord_mod {value : Nat} :
    (m.storeWord address value).loadWord address = value % 2 ^ 64 := by
  have h := load_store_same m address (toLeBytes 8 value)
  rw [length_toLeBytes] at h
  rw [loadWord, storeWord, h, fromLeBytes_toLeBytes, show 256 ^ 8 = 2 ^ 64 from rfl]

/-- A stored word is read back. -/
theorem loadWord_storeWord_same {value : Nat} (hv : value < 2 ^ 64) :
    (m.storeWord address value).loadWord address = value := by
  rw [loadWord_storeWord_mod, Nat.mod_eq_of_lt hv]

/-- Storing a word leaves the words that do not overlap it alone. -/
theorem loadWord_storeWord_disjoint {value : Nat} (h : a + 8 ≤ address ∨ address + 8 ≤ a) :
    (m.storeWord address value).loadWord a = m.loadWord a := by
  rw [loadWord, storeWord, load_store_disjoint (by rwa [length_toLeBytes]), loadWord]

/-- Storing a word leaves the other bytes alone. -/
theorem storeWord_outside {value : Nat} (h : a < address ∨ address + 8 ≤ a) :
    m.storeWord address value a = m a :=
  store_outside (by rwa [length_toLeBytes])

/-- Every word in a cleared range is zero. -/
theorem loadWord_store_zeros (hl : address ≤ a) (hr : a + 8 ≤ address + n) :
    (m.store address (List.replicate n 0)).loadWord a = 0 := by
  have hz : (m.store address (List.replicate n 0)).load a 8 = List.replicate 8 0 := by
    apply List.ext_getElem (by simp)
    intro i h₁ h₂
    have hi : i < 8 := by simpa using h₂
    have hin : a + i - address < (List.replicate n (0 : UInt8)).length := by
      rw [List.length_replicate]
      omega
    simp only [load, List.getElem_map, List.getElem_range, List.getElem_replicate]
    rw [show a + i = address + (a + i - address) by omega, store_inside hin, List.get_eq_getElem,
      List.getElem_replicate]
  rw [loadWord, hz]
  rfl

end Memory
end LokoOS.Base
