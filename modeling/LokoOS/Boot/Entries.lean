import LokoOS.Base.Bits
import LokoOS.Boot.Paging

/-!
# Page-table entries

The three entries the builder of `boot/loko-boot/src/paging.rs` writes, and what the
hardware reads back from each: its kind, its frame and its permissions.
-/

namespace LokoOS.Boot
open LokoOS.Base

/-- The entry that links a table; `paging.rs:203`. -/
def linkEntry (frame : Nat) : Nat := frame ||| present ||| writable

/-- The entry that maps a 4 KiB page; `paging.rs:225`. -/
def pageEntry (frame : Nat) (p : Permissions) : Nat := frame ||| p.toBits

/-- The entry that maps a 2 MiB page; `paging.rs:247–251`. -/
def hugeEntry (frame : Nat) (p : Permissions) : Nat := frame ||| p.toBits ||| huge

/-! ### Bits as arithmetic -/

private theorem isPresent_eq (e : Nat) : isPresent e = decide (e % 2 = 1) := by
  have h : e &&& present = e % 2 := by
    rw [show present = 2 ^ 0 from rfl, and_bit, Nat.pow_zero, Nat.div_one, Nat.one_mul]
  rw [isPresent, h]
  exact decide_eq_decide.mpr (by omega)

private theorem isHuge_eq (e : Nat) : isHuge e = decide (e / 128 % 2 = 1) := by
  have h : e &&& huge = 128 * (e / 128 % 2) := and_bit e 7
  rw [isHuge, h]
  exact decide_eq_decide.mpr (by omega)

private theorem entryPermissions_eq (e : Nat) :
    entryPermissions e = ⟨decide (e / 2 % 2 = 1), decide (e / 2 ^ 63 % 2 = 0)⟩ := by
  have hw : e &&& writable = 2 * (e / 2 % 2) := and_bit e 1
  have hx : e &&& noExecute = 2 ^ 63 * (e / 2 ^ 63 % 2) := and_bit e 63
  rw [entryPermissions, hw, hx]
  congr 1 <;> exact decide_eq_decide.mpr (by omega)

/-- The address bits of an entry. -/
theorem and_addressMask (e : Nat) : e &&& addressMask = 4096 * (e / 4096 % 2 ^ 40) :=
  and_field e 12 40

/-- An index into a table is nine bits of the address. -/
theorem pml4Index_eq (address : Nat) : pml4Index address = address / 2 ^ 39 % 512 := by
  rw [pml4Index, Nat.shiftRight_eq_div_pow]
  exact Nat.and_two_pow_sub_one_eq_mod _ 9

/-- An index into a table is nine bits of the address. -/
theorem pdptIndex_eq (address : Nat) : pdptIndex address = address / 2 ^ 30 % 512 := by
  rw [pdptIndex, Nat.shiftRight_eq_div_pow]
  exact Nat.and_two_pow_sub_one_eq_mod _ 9

/-- An index into a table is nine bits of the address. -/
theorem pdIndex_eq (address : Nat) : pdIndex address = address / 2 ^ 21 % 512 := by
  rw [pdIndex, Nat.shiftRight_eq_div_pow]
  exact Nat.and_two_pow_sub_one_eq_mod _ 9

/-- An index into a table is nine bits of the address. -/
theorem ptIndex_eq (address : Nat) : ptIndex address = address / 2 ^ 12 % 512 := by
  rw [ptIndex, Nat.shiftRight_eq_div_pow]
  exact Nat.and_two_pow_sub_one_eq_mod _ 9

private theorem toBits_eq (p : Permissions) :
    p.toBits = 1 + (if p.writable then 2 else 0) + (if p.executable then 0 else 2 ^ 63) := by
  rcases p with ⟨_ | _, _ | _⟩ <;> rfl

private theorem linkEntry_eq {frame : Nat} (ha : frame % 4096 = 0) :
    linkEntry frame = frame + 3 := by
  rw [linkEntry, Nat.or_assoc]
  exact or_low 12 ha (by decide)

private theorem or_flags {frame b : Nat} (ha : frame % 4096 = 0) (hb : frame < 2 ^ 52)
    (h : b < 4096) :
    frame ||| b = frame + b ∧ frame ||| (b ||| 2 ^ 63) = frame + b + 2 ^ 63 := by
  have hlow : frame ||| b = frame + b := or_low 12 ha h
  refine ⟨hlow, ?_⟩
  rw [← Nat.or_assoc, hlow, or_high 63 (by omega)]

private theorem toBits_eq_or (p : Permissions) :
    p.toBits = if p.executable then 1 + (if p.writable then 2 else 0)
      else 1 + (if p.writable then 2 else 0) ||| 2 ^ 63 := by
  rcases p with ⟨_ | _, _ | _⟩ <;> decide

private theorem pageEntry_eq {frame : Nat} (p : Permissions) (ha : frame % 4096 = 0)
    (hb : frame < 2 ^ 52) : pageEntry frame p = frame + p.toBits := by
  have hw : 1 + (if p.writable then 2 else 0) < 4096 := by split <;> decide
  have h := or_flags ha hb hw
  rw [toBits_eq, pageEntry, toBits_eq_or]
  split
  · rw [h.1, Nat.add_zero]
  · rw [h.2, Nat.add_assoc]

private theorem hugeEntry_eq {frame : Nat} (p : Permissions) (ha : frame % hugePageSize = 0)
    (hb : frame < 2 ^ 52) : hugeEntry frame p = frame + 128 + p.toBits := by
  simp only [hugePageSize] at ha
  have hw : 129 + (if p.writable then 2 else 0) < 4096 := by split <;> decide
  have h := or_flags (by omega) hb hw
  have hbits : p.toBits ||| huge =
      if p.executable then 129 + (if p.writable then 2 else 0)
      else 129 + (if p.writable then 2 else 0) ||| 2 ^ 63 := by
    rcases p with ⟨_ | _, _ | _⟩ <;> decide
  rw [hugeEntry, Nat.or_assoc, hbits, toBits_eq]
  split
  · rw [h.1]
    omega
  · rw [h.2]
    omega

/-! ### What the hardware reads back -/

/-- A zero entry maps nothing. -/
@[simp] theorem isPresent_zero : isPresent 0 = false := rfl

section Link

variable {frame : Nat} (ha : frame % 4096 = 0)
include ha

/-- A link entry is present. -/
theorem isPresent_linkEntry : isPresent (linkEntry frame) = true := by
  rw [isPresent_eq, linkEntry_eq ha, decide_eq_true_eq]
  omega

/-- A link entry maps no large page. -/
theorem isHuge_linkEntry : isHuge (linkEntry frame) = false := by
  rw [isHuge_eq, linkEntry_eq ha, decide_eq_false_iff_not]
  omega

/-- A link entry fits in a word. -/
theorem linkEntry_lt (hb : frame < 2 ^ 52) : linkEntry frame < 2 ^ 64 := by
  rw [linkEntry_eq ha]
  omega

/-- A link entry names its frame. -/
theorem linkEntry_and_mask (hb : frame < 2 ^ 52) : linkEntry frame &&& addressMask = frame := by
  rw [and_addressMask, linkEntry_eq ha]
  omega

/-- A link entry restricts nothing. -/
theorem entryPermissions_linkEntry (hb : frame < 2 ^ 52) :
    entryPermissions (linkEntry frame) = ⟨true, true⟩ := by
  rw [entryPermissions_eq, linkEntry_eq ha]
  congr 1 <;> rw [decide_eq_true_eq] <;> omega

end Link

section Page

variable {frame : Nat} (p : Permissions) (ha : frame % 4096 = 0) (hb : frame < 2 ^ 52)
include ha hb

/-- A page entry fits in a word. -/
theorem pageEntry_lt : pageEntry frame p < 2 ^ 64 := by
  rw [pageEntry_eq p ha hb, toBits_eq]
  split <;> split <;> omega

/-- A page entry is present. -/
theorem isPresent_pageEntry : isPresent (pageEntry frame p) = true := by
  rw [isPresent_eq, pageEntry_eq p ha hb, toBits_eq, decide_eq_true_eq]
  split <;> split <;> omega

/-- A page entry names its frame. -/
theorem frameOf_pageEntry : frameOf (pageEntry frame p) pageSize = frame := by
  rw [frameOf, and_addressMask, pageEntry_eq p ha hb, toBits_eq, pageSize]
  split <;> split <;> omega

/-- A page entry carries its permissions. -/
theorem entryPermissions_pageEntry : entryPermissions (pageEntry frame p) = p := by
  rw [entryPermissions_eq, pageEntry_eq p ha hb, toBits_eq]
  rcases p with ⟨_ | _, _ | _⟩ <;> simp <;> omega

end Page

section Huge

variable {frame : Nat} (p : Permissions) (ha : frame % hugePageSize = 0) (hb : frame < 2 ^ 52)
include ha hb

/-- A huge entry fits in a word. -/
theorem hugeEntry_lt : hugeEntry frame p < 2 ^ 64 := by
  rw [hugeEntry_eq p ha hb, toBits_eq]
  split <;> split <;> omega

/-- A huge entry is present. -/
theorem isPresent_hugeEntry : isPresent (hugeEntry frame p) = true := by
  rw [isPresent_eq, hugeEntry_eq p ha hb, toBits_eq, decide_eq_true_eq]
  simp only [hugePageSize] at ha
  split <;> split <;> omega

/-- A huge entry maps a large page. -/
theorem isHuge_hugeEntry : isHuge (hugeEntry frame p) = true := by
  rw [isHuge_eq, hugeEntry_eq p ha hb, toBits_eq, decide_eq_true_eq]
  simp only [hugePageSize] at ha
  split <;> split <;> omega

/-- A huge entry names its frame. -/
theorem frameOf_hugeEntry : frameOf (hugeEntry frame p) hugePageSize = frame := by
  rw [frameOf, and_addressMask, hugeEntry_eq p ha hb, toBits_eq]
  simp only [hugePageSize] at ha ⊢
  split <;> split <;> omega

/-- A huge entry carries its permissions. -/
theorem entryPermissions_hugeEntry : entryPermissions (hugeEntry frame p) = p := by
  rw [entryPermissions_eq, hugeEntry_eq p ha hb, toBits_eq]
  simp only [hugePageSize] at ha
  rcases p with ⟨_ | _, _ | _⟩ <;> simp <;> omega

end Huge
end LokoOS.Boot
