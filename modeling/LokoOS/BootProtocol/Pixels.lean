import LokoOS.BootProtocol.BootInfo

/-!
# Where a pixel lies in the framebuffer

`boot/loko-boot-protocol/src/lib.rs:162–211`. The fields come from the firmware. The sum that
locates a pixel is checked arithmetic, so it can panic, and the comparison with the size
saturates, so it can accept a pixel whose last bytes are past the end.
-/

namespace LokoOS.BootProtocol
open LokoOS.Base

/-- The largest `u32`. -/
def u32Max : Nat := 2 ^ 32 - 1

/-- The fields have values of their types; `lib.rs:164`. -/
structure Framebuffer.InType (fb : Framebuffer) : Prop where
  base_le : fb.base ≤ u64Max
  size_le : fb.size ≤ u64Max
  width_le : fb.width ≤ u32Max
  height_le : fb.height ≤ u32Max
  stride_le : fb.strideBytes ≤ u32Max

/-- The byte offset of a pixel, absent outside the visible area or past the end of the buffer;
`lib.rs:201`. -/
def Framebuffer.pixelOffset (fb : Framebuffer) (x y : Nat) : Option (Option Nat) :=
  if x ≥ fb.width ∨ y ≥ fb.height then some .none
  else do
    let row ← mulU64 y fb.strideBytes
    let column ← mulU64 x 4
    let offset ← addU64 row column
    if saturatingAdd offset 4 > fb.size then return .none
    return some offset

/-- Where the first byte of a pixel is, as a number without bound. -/
def Framebuffer.offsetOf (fb : Framebuffer) (x y : Nat) : Nat := y * fb.strideBytes + 4 * x

/-- A pixel is in the visible area. -/
def Framebuffer.Visible (fb : Framebuffer) (x y : Nat) : Prop := x < fb.width ∧ y < fb.height

/-- The four bytes of a pixel end inside the buffer. -/
def Framebuffer.Stored (fb : Framebuffer) (x y : Nat) : Prop := fb.offsetOf x y + 4 ≤ fb.size

instance (fb : Framebuffer) (x y : Nat) : Decidable (fb.Visible x y) :=
  inferInstanceAs (Decidable (_ ∧ _))

instance (fb : Framebuffer) (x y : Nat) : Decidable (fb.Stored x y) :=
  inferInstanceAs (Decidable (_ ≤ _))

variable {fb : Framebuffer} {x y : Nat}

/-- Outside the visible area nothing is computed. -/
theorem Framebuffer.pixelOffset_of_not_visible (h : ¬ fb.Visible x y) :
    fb.pixelOffset x y = some .none := by
  unfold Framebuffer.Visible at h
  rw [pixelOffset, if_pos (by omega)]

private theorem Framebuffer.pixelOffset_overflow (hv : fb.Visible x y)
    (ho : u64Max < fb.offsetOf x y) :
    fb.pixelOffset x y = .none := by
  unfold Framebuffer.Visible at hv
  unfold offsetOf at ho
  rw [pixelOffset, if_neg (by omega)]
  unfold mulU64
  split
  · split
    · simp only [addU64, Option.bind_eq_bind, Option.bind_some]
      rw [if_neg (by omega)]
      rfl
    · rfl
  · rfl

private theorem Framebuffer.pixelOffset_of_le (hv : fb.Visible x y)
    (ho : fb.offsetOf x y ≤ u64Max) :
    fb.pixelOffset x y =
      some (if saturatingAdd (fb.offsetOf x y) 4 > fb.size then .none
        else some (fb.offsetOf x y)) := by
  unfold Framebuffer.Visible at hv
  unfold offsetOf at ho ⊢
  rw [pixelOffset, if_neg (by omega), mulU64_of_le (by omega), mulU64_of_le (by omega)]
  simp only [Option.bind_eq_bind, Option.bind_some]
  rw [addU64_of_le (by omega), Nat.mul_comm x 4]
  simp only [Option.bind_some]
  split <;> rfl

/-- When the last byte of a visible pixel is below 2^64, the comparison is exact. -/
theorem Framebuffer.pixelOffset_exact (hv : fb.Visible x y) (ho : fb.offsetOf x y + 4 ≤ u64Max) :
    fb.pixelOffset x y =
      some (if fb.Stored x y then some (fb.offsetOf x y) else .none) := by
  rw [pixelOffset_of_le hv (by omega), saturatingAdd, Nat.min_eq_left ho]
  by_cases hs : fb.Stored x y
  · rw [if_pos hs, if_neg (Nat.not_lt.mpr hs)]
  · rw [if_neg hs, if_pos (Nat.lt_of_not_le hs)]

/-- The pixel is addressed as it should be: without a panic, and with its offset exactly when
it is visible and ends inside the buffer. -/
def Framebuffer.Addressed (fb : Framebuffer) (x y : Nat) : Prop :=
  ∃ r, fb.pixelOffset x y = some r ∧
    ∀ o, r = some o ↔ fb.Visible x y ∧ fb.Stored x y ∧ o = fb.offsetOf x y

private theorem Framebuffer.addressed_of_not_visible (hv : ¬ fb.Visible x y) :
    fb.Addressed x y := by
  refine ⟨.none, pixelOffset_of_not_visible hv, fun o ↦ ?_⟩
  simp only [reduceCtorEq, false_iff]
  intro hall
  exact hv hall.1

private theorem Framebuffer.not_addressed_of_overflow (hv : fb.Visible x y)
    (ho : u64Max < fb.offsetOf x y) : ¬ fb.Addressed x y := by
  intro h
  obtain ⟨r, hr, -⟩ := h
  rw [pixelOffset_overflow hv ho] at hr
  cases hr

private theorem Framebuffer.addressed_of_exact (hv : fb.Visible x y)
    (hend : fb.offsetOf x y + 4 ≤ u64Max) : fb.Addressed x y := by
  refine ⟨_, pixelOffset_exact hv hend, fun o ↦ ?_⟩
  split
  · next hs =>
    rw [Option.some.injEq]
    constructor
    · intro heq
      exact ⟨hv, hs, heq.symm⟩
    · intro hall
      exact hall.2.2.symm
  · next hs =>
    simp only [reduceCtorEq, false_iff]
    intro hall
    exact hs hall.2.1

private theorem Framebuffer.addressed_of_saturated (hs : fb.size ≤ u64Max) (hv : fb.Visible x y)
    (ho : fb.offsetOf x y ≤ u64Max) (hend : u64Max < fb.offsetOf x y + 4) :
    fb.Addressed x y ↔ fb.size < u64Max := by
  have hoffset := pixelOffset_of_le hv ho
  have hsat : saturatingAdd (fb.offsetOf x y) 4 = u64Max := Nat.min_eq_right (Nat.le_of_lt hend)
  rw [hsat] at hoffset
  have hpast : ¬ fb.Stored x y := by
    unfold Stored
    omega
  constructor
  · intro h
    obtain ⟨r, hr, hall⟩ := h
    by_contra hlarge
    rw [hoffset, if_neg hlarge, Option.some.injEq] at hr
    exact hpast ((hall _).mp hr.symm).2.1
  · intro hlt
    refine ⟨.none, by rw [hoffset, if_pos hlt], fun o ↦ ?_⟩
    simp only [reduceCtorEq, false_iff]
    intro hall
    exact hpast hall.2.1

/-- A pixel is addressed as it should be exactly when it is not visible, or its last byte is
below 2^64, or its first byte is and the buffer is not of the largest size. -/
theorem Framebuffer.addressed_iff (hs : fb.size ≤ u64Max) :
    fb.Addressed x y ↔ (fb.Visible x y →
      fb.offsetOf x y + 4 ≤ u64Max ∨ (fb.offsetOf x y ≤ u64Max ∧ fb.size < u64Max)) := by
  by_cases hv : fb.Visible x y
  · rw [forall_prop_of_true hv]
    by_cases hend : fb.offsetOf x y + 4 ≤ u64Max
    · exact ⟨fun _ ↦ .inl hend, fun _ ↦ addressed_of_exact hv hend⟩
    · rw [or_iff_right hend]
      by_cases ho : fb.offsetOf x y ≤ u64Max
      · rw [addressed_of_saturated hs hv ho (Nat.lt_of_not_le hend), and_iff_right ho]
      · constructor
        · intro h
          exact absurd h (not_addressed_of_overflow hv (Nat.lt_of_not_le ho))
        · intro h
          exact absurd h.1 ho
  · constructor
    · intro _ hv'
      exact absurd hv' hv
    · intro _
      exact addressed_of_not_visible hv

/-- The framebuffer of the test `a_framebuffer_with_a_lying_stride_cannot_overrun`; `lib.rs:545`. -/
def lyingFramebuffer : Framebuffer := ⟨0xE0000000, 4096, 1920, 1080, 1920 * 4, .bgrx8888⟩

/-- Its second row is past the real size, and is addressed as it should be. -/
theorem Framebuffer.addressed_lying : lyingFramebuffer.Addressed 0 1 := by
  rw [addressed_iff (by decide)]
  intro _
  exact .inl (by decide)

/-- A framebuffer whose every field has the largest value of its type. -/
def largestFramebuffer : Framebuffer :=
  ⟨u64Max, u64Max, u32Max, u32Max, u32Max, .bgrx8888⟩

/-- On the largest framebuffer the last pixel is a panic, and a pixel whose last two bytes are
past the end is accepted. -/
theorem Framebuffer.not_addressed_largest :
    largestFramebuffer.InType ∧
      largestFramebuffer.pixelOffset (u32Max - 1) (u32Max - 1) = .none ∧
      ¬ largestFramebuffer.Addressed (u32Max - 1) (u32Max - 1) ∧
      largestFramebuffer.pixelOffset (3 * 2 ^ 30 - 1) (u32Max - 1) = some (some (2 ^ 64 - 2)) ∧
      ¬ largestFramebuffer.Addressed (3 * 2 ^ 30 - 1) (u32Max - 1) := by
  have hpanic : largestFramebuffer.pixelOffset (u32Max - 1) (u32Max - 1) = .none := by decide
  have haccept : largestFramebuffer.pixelOffset (3 * 2 ^ 30 - 1) (u32Max - 1) =
      some (some (2 ^ 64 - 2)) := by decide
  refine ⟨⟨le_rfl, le_rfl, le_rfl, le_rfl, le_rfl⟩, hpanic, ?_, haccept, ?_⟩
  · intro h
    obtain ⟨r, hr, -⟩ := h
    rw [hpanic] at hr
    cases hr
  · intro h
    obtain ⟨r, hr, hall⟩ := h
    rw [haccept, Option.some.injEq] at hr
    have hend : ¬ largestFramebuffer.Stored (3 * 2 ^ 30 - 1) (u32Max - 1) := by decide
    exact hend ((hall _).mp hr.symm).2.1

end LokoOS.BootProtocol
