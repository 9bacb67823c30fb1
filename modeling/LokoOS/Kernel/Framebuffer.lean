import LokoOS.Base.ByteMemory
import LokoOS.BootProtocol.Pixels

/-!
# The early-boot framebuffer

`kernel/loko-kernel/src/framebuffer.rs:22–163`. The surface is the static `SURFACE`; the memory
behind its mapping is a byte memory. A rectangle is filled by two nested loops over pixels. The
cells of two pixels share no byte when a row is as long as its visible part.
-/

namespace LokoOS.Kernel
open LokoOS.Base LokoOS.BootProtocol

/-- A colour, converted per framebuffer format; `framebuffer.rs:25`. -/
structure Colour where
  r : UInt8
  g : UInt8
  b : UInt8
  deriving DecidableEq, Repr

/-- The stop-screen background; `framebuffer.rs:38`. -/
def Colour.stopBackground : Colour := ⟨18, 24, 38⟩

/-- The stop-screen indicator; `framebuffer.rs:44`. -/
def Colour.stopAccent : Colour := ⟨94, 148, 255⟩

/-- The four bytes the framebuffer expects; `framebuffer.rs:54`. -/
def Colour.toBytes (c : Colour) : PixelFormat → List UInt8
  | .bgrx8888 => [c.b, c.g, c.r, 0]
  | .rgbx8888 => [c.r, c.g, c.b, 0]

/-- A pixel is four bytes in either format. -/
@[simp] theorem Colour.length_toBytes (c : Colour) (format : PixelFormat) :
    (c.toBytes format).length = 4 := by
  cases format <;> rfl

/-- `u32::saturating_add`. -/
def saturatingAddU32 (a b : Nat) : Nat := min (a + b) u32Max

/-- What a drawing routine does to memory; it reports no errors. -/
abbrev Drawing := Proc Memory Empty Unit

/-- Record the framebuffer the bootloader set up; `framebuffer.rs:71`. -/
def init (framebuffer : Framebuffer) (surface : Option Framebuffer) : Option Framebuffer :=
  if framebuffer.isPresent then some framebuffer else surface

/-- Write one pixel, doing nothing if it falls outside the surface; `framebuffer.rs:98`. -/
def putPixel (surface : Framebuffer) (x y : Nat) (colour : Colour) : Drawing := do
  match ← Proc.lift (surface.pixelOffset x y) with
  | none => pure ()
  | some offset =>
    Proc.modify fun m ↦ m.store (surface.base + offset) (colour.toBytes surface.format)

/-- Fill a rectangle, clipped to the surface; `framebuffer.rs:114`. -/
def fillRect (surface : Option Framebuffer) (x y width height : Nat) (colour : Colour) : Drawing :=
  match surface with
  | none => pure ()
  | some surface =>
    Proc.forRange (saturatingAddU32 y height - y) fun row ↦
      Proc.forRange (saturatingAddU32 x width - x) fun column ↦
        putPixel surface (x + column) (y + row) colour

/-- Fill the whole surface; `framebuffer.rs:130`. -/
def clear (surface : Option Framebuffer) (colour : Colour) : Drawing :=
  match surface with
  | none => pure ()
  | some s => fillRect surface 0 0 s.width s.height colour

/-- Paint the stop screen: the background and one accent bar; `framebuffer.rs:140`. -/
def stopScreen (surface : Option Framebuffer) : Drawing :=
  match surface with
  | none => pure ()
  | some s => do
    clear surface .stopBackground
    let barWidth := s.width / 3
    let barHeight := max (s.height / 120) 3
    fillRect surface ((s.width - barWidth) / 2) (s.height / 3) barWidth barHeight .stopAccent

/-- What is drawn when some pixels are given a colour: the cells of those that are visible and
end inside the buffer hold its bytes, and no other byte of memory has changed. -/
structure Painted (fb : Framebuffer) (colour : Colour) (pixels : Nat → Nat → Prop)
    (m m' : Memory) : Prop where
  drawn : ∀ x y, pixels x y → fb.Visible x y → fb.Stored x y →
    m'.load (fb.base + fb.offsetOf x y) 4 = colour.toBytes fb.format
  kept : ∀ a, (∀ x y, pixels x y → fb.Visible x y → fb.Stored x y →
    a < fb.base + fb.offsetOf x y ∨ fb.base + fb.offsetOf x y + 4 ≤ a) → m' a = m a

variable {fb : Framebuffer} {colour : Colour} {pixels : Nat → Nat → Prop} {m m' : Memory}

/-- Nothing at or past the end of the buffer is written. -/
theorem Painted.kept_outside (h : Painted fb colour pixels m m') {a : Nat}
    (ha : fb.base + fb.size ≤ a) : m' a = m a := by
  apply h.kept
  intro x y _ _ hs
  unfold Framebuffer.Stored at hs
  omega

/-- With nothing to draw, memory is as it was. -/
theorem painted_none (hno : ∀ x y, ¬ pixels x y) : Painted fb colour pixels m m where
  drawn := fun x y h ↦ absurd h (hno x y)
  kept := fun _ _ ↦ rfl

/-- Only which pixels are drawn matters. -/
theorem Painted.congr (h : Painted fb colour pixels m m') {pixels' : Nat → Nat → Prop}
    (hiff : ∀ x y, fb.Visible x y → (pixels' x y ↔ pixels x y)) :
    Painted fb colour pixels' m m' where
  drawn := fun x y hp hv hs ↦ h.drawn x y ((hiff x y hv).mp hp) hv hs
  kept := fun a ha ↦ h.kept a fun x y hp hv hs ↦ ha x y ((hiff x y hv).mpr hp) hv hs

/-- The fields have values of their types and a row is at least as long as its visible part. -/
structure SeparateRows (fb : Framebuffer) : Prop where
  inType : fb.InType
  stride : 4 * fb.width ≤ fb.strideBytes

variable {x y x' y' : Nat}

/-- The cell of a visible pixel ends at or before the next row starts. -/
theorem SeparateRows.cell_le (h : SeparateRows fb) (hv : fb.Visible x y) (hlt : y < y') :
    fb.offsetOf x y + 4 ≤ y' * fb.strideBytes := by
  have hrow : (y + 1) * fb.strideBytes ≤ y' * fb.strideBytes := Nat.mul_le_mul_right _ hlt
  have hx := hv.1
  have hs := h.stride
  rw [Nat.add_mul] at hrow
  unfold Framebuffer.offsetOf
  omega

/-- The last byte of a visible pixel is below 2^64. -/
theorem SeparateRows.offsetOf_le (h : SeparateRows fb) (hv : fb.Visible x y) :
    fb.offsetOf x y + 4 ≤ u64Max := by
  have hend := h.cell_le hv hv.2
  have hsize : fb.height * fb.strideBytes ≤ u32Max * u32Max :=
    Nat.mul_le_mul h.inType.height_le h.inType.stride_le
  have hmax : u32Max * u32Max ≤ u64Max := by decide
  omega

/-- The cells of different visible pixels share no byte. -/
theorem SeparateRows.disjoint (h : SeparateRows fb) (hv : fb.Visible x y)
    (hv' : fb.Visible x' y') (hne : ¬ (x = x' ∧ y = y')) :
    fb.offsetOf x y + 4 ≤ fb.offsetOf x' y' ∨ fb.offsetOf x' y' + 4 ≤ fb.offsetOf x y := by
  cases Nat.lt_trichotomy y y' with
  | inl hlt =>
    have hend := h.cell_le hv hlt
    have hstart : y' * fb.strideBytes ≤ fb.offsetOf x' y' := Nat.le_add_right _ _
    omega
  | inr hge =>
    cases hge with
    | inl heq =>
      subst heq
      unfold Framebuffer.offsetOf
      omega
    | inr hgt =>
      have hend := h.cell_le hv' hgt
      have hstart : y * fb.strideBytes ≤ fb.offsetOf x y := Nat.le_add_right _ _
      omega

/-- A pixel is written to its cell when it is visible and ends inside the buffer, and is
passed over otherwise. -/
theorem SeparateRows.putPixel_eq (h : SeparateRows fb) :
    putPixel fb x y colour m = some (.ok (),
      if fb.Visible x y ∧ fb.Stored x y then
        m.store (fb.base + fb.offsetOf x y) (colour.toBytes fb.format)
      else m) := by
  unfold putPixel
  by_cases hv : fb.Visible x y
  · have hoffset := Framebuffer.pixelOffset_exact hv (h.offsetOf_le hv)
    by_cases hs : fb.Stored x y
    · rw [if_pos hs] at hoffset
      have hboth : fb.Visible x y ∧ fb.Stored x y := ⟨hv, hs⟩
      rw [if_pos hboth, hoffset]
      rfl
    · rw [if_neg hs] at hoffset
      have hnot : ¬ (fb.Visible x y ∧ fb.Stored x y) := fun hb ↦ hs hb.2
      rw [if_neg hnot, hoffset]
      rfl
  · have hnot : ¬ (fb.Visible x y ∧ fb.Stored x y) := fun hb ↦ hv hb.1
    rw [if_neg hnot, Framebuffer.pixelOffset_of_not_visible hv]
    rfl

/-- One more pixel is drawn. -/
theorem Painted.putPixel (hr : SeparateRows fb) (h : Painted fb colour pixels m m') (x y : Nat) :
    ∃ m'', putPixel fb x y colour m' = some (.ok (), m'') ∧
      Painted fb colour (fun px py ↦ pixels px py ∨ px = x ∧ py = y) m m'' := by
  refine ⟨_, hr.putPixel_eq, ?_⟩
  split
  · next hcell =>
    have hlen := colour.length_toBytes fb.format
    constructor
    · intro px py hp hv hs
      by_cases hsame : px = x ∧ py = y
      · have hload := Memory.load_store_same m' (fb.base + fb.offsetOf x y)
          (colour.toBytes fb.format)
        rw [hlen] at hload
        rw [hsame.1, hsame.2]
        exact hload
      · have hold : pixels px py := hp.resolve_right hsame
        have hapart := hr.disjoint hv hcell.1 hsame
        rw [Memory.load_store_disjoint (by omega)]
        exact h.drawn px py hold hv hs
    · intro a ha
      have hout := ha x y (.inr ⟨rfl, rfl⟩) hcell.1 hcell.2
      rw [Memory.store_outside (by omega)]
      exact h.kept a fun px py hp ↦ ha px py (.inl hp)
  · next hcell =>
    -- the new pixel has no cell to draw
    constructor
    · intro px py hp hv hs
      cases hp with
      | inl hp => exact h.drawn px py hp hv hs
      | inr hp =>
        rw [hp.1, hp.2] at hv hs
        exact absurd ⟨hv, hs⟩ hcell
    · intro a ha
      exact h.kept a fun px py hp ↦ ha px py (.inl hp)

/-- A row of pixels is drawn. -/
theorem Painted.row (hr : SeparateRows fb) (h : Painted fb colour pixels m m') (x y n : Nat) :
    ∃ m'', Proc.forRange n (fun column ↦ Kernel.putPixel fb (x + column) y colour) m' =
        some (.ok (), m'') ∧
      Painted fb colour (fun px py ↦ pixels px py ∨ (x ≤ px ∧ px < x + n ∧ py = y)) m m'' := by
  apply Proc.forRange_total fun i m'' ↦
    Painted fb colour (fun px py ↦ pixels px py ∨ (x ≤ px ∧ px < x + i ∧ py = y)) m m''
  · intro i m₁ _ hp
    obtain ⟨m₂, hput, hq⟩ := hp.putPixel hr (x + i) y
    refine ⟨m₂, hput, hq.congr fun px py _ ↦ ?_⟩
    rw [or_assoc]
    apply or_congr_right
    omega
  · apply h.congr
    intro px py _
    rw [or_iff_left (by omega)]

/-- A block of rows is drawn. -/
theorem Painted.block (hr : SeparateRows fb) (colour : Colour) (m : Memory)
    (x y columns rows : Nat) :
    ∃ m', Proc.forRange rows (fun row ↦ Proc.forRange columns fun column ↦
        Kernel.putPixel fb (x + column) (y + row) colour) m = some (.ok (), m') ∧
      Painted fb colour
        (fun px py ↦ x ≤ px ∧ px < x + columns ∧ y ≤ py ∧ py < y + rows) m m' := by
  apply Proc.forRange_total fun i m' ↦
    Painted fb colour (fun px py ↦ x ≤ px ∧ px < x + columns ∧ y ≤ py ∧ py < y + i) m m'
  · intro i m₁ _ hp
    obtain ⟨m₂, hrow, hq⟩ := hp.row hr x (y + i) columns
    refine ⟨m₂, hrow, hq.congr fun px py _ ↦ ?_⟩
    omega
  · apply painted_none
    intro px py
    omega

/-- Filling a rectangle draws the visible pixels inside it, and saturating its far edges leaves
no visible pixel out. -/
theorem fillRect_painted (hr : SeparateRows fb) (x y width height : Nat) (colour : Colour)
    (m : Memory) :
    ∃ m', fillRect (some fb) x y width height colour m = some (.ok (), m') ∧
      Painted fb colour
        (fun px py ↦ x ≤ px ∧ px < x + width ∧ y ≤ py ∧ py < y + height) m m' := by
  obtain ⟨m', hfill, hp⟩ := Painted.block hr colour m x y
    (saturatingAddU32 x width - x) (saturatingAddU32 y height - y)
  refine ⟨m', hfill, hp.congr fun px py hv ↦ ?_⟩
  have hw := hr.inType.width_le
  have hh := hr.inType.height_le
  have hx := hv.1
  have hy := hv.2
  unfold saturatingAddU32
  omega

/-- Clearing draws the whole surface. -/
theorem clear_painted (hr : SeparateRows fb) (colour : Colour) (m : Memory) :
    ∃ m', clear (some fb) colour m = some (.ok (), m') ∧
      Painted fb colour fb.Visible m m' := by
  obtain ⟨m', hfill, hp⟩ := fillRect_painted hr 0 0 fb.width fb.height colour m
  refine ⟨m', hfill, hp.congr fun px py _ ↦ ?_⟩
  unfold Framebuffer.Visible
  omega

/-- Filling is clipped exactly: the visible pixels inside the rectangle whose cells end inside
the buffer hold the colour, every other byte is as it was, and nothing at or past the end of
the buffer is written. Clearing is the case of the full surface. -/
theorem fillRect_clipped (hr : SeparateRows fb) (x y width height : Nat) (colour : Colour)
    (m : Memory) :
    (∃ m', fillRect (some fb) x y width height colour m = some (.ok (), m') ∧
      (∀ px py, px < fb.width → py < fb.height → x ≤ px → px < x + width → y ≤ py →
        py < y + height → py * fb.strideBytes + 4 * px + 4 ≤ fb.size →
        m'.load (fb.base + (py * fb.strideBytes + 4 * px)) 4 = colour.toBytes fb.format) ∧
      (∀ a, (¬ ∃ px py, px < fb.width ∧ py < fb.height ∧ x ≤ px ∧ px < x + width ∧ y ≤ py ∧
        py < y + height ∧ py * fb.strideBytes + 4 * px + 4 ≤ fb.size ∧
        fb.base + (py * fb.strideBytes + 4 * px) ≤ a ∧
        a < fb.base + (py * fb.strideBytes + 4 * px) + 4) → m' a = m a) ∧
      ∀ a, fb.base + fb.size ≤ a → m' a = m a) ∧
    clear (some fb) colour m = fillRect (some fb) 0 0 fb.width fb.height colour m := by
  obtain ⟨m', hfill, hp⟩ := fillRect_painted hr x y width height colour m
  refine ⟨⟨m', hfill, ?_, ?_, fun a ha ↦ hp.kept_outside ha⟩, rfl⟩
  · intro px py hw hh hx hx' hy hy' hs
    exact hp.drawn px py ⟨hx, hx', hy, hy'⟩ ⟨hw, hh⟩ hs
  · intro a ha
    apply hp.kept
    intro px py hin hv hs
    by_contra hout
    rw [not_or, Nat.not_lt, Nat.not_le] at hout
    exact ha ⟨px, py, hv.1, hv.2, hin.1, hin.2.1, hin.2.2.1, hin.2.2.2, hs, hout⟩

/-- On the framebuffer with a lying stride, a rectangle that reaches the largest coordinates
stops at the end of the buffer. -/
theorem fillRect_clipped_lying :
    ∃ m', fillRect (some lyingFramebuffer) 1000 0 u32Max u32Max .stopAccent (fun _ ↦ 0) =
        some (.ok (), m') ∧
      m'.load (0xE0000000 + 4 * 1000) 4 = [255, 148, 94, 0] ∧ m' (0xE0000000 + 4096) = 0 := by
  have hr : SeparateRows lyingFramebuffer :=
    ⟨⟨by decide, by decide, by decide, by decide, by decide⟩, by decide⟩
  obtain ⟨⟨m', hfill, hin, -, hpast⟩, -⟩ :=
    fillRect_clipped hr 1000 0 u32Max u32Max .stopAccent (fun _ ↦ 0)
  refine ⟨m', hfill, ?_, hpast _ (by decide)⟩
  exact hin 1000 0 (by decide) (by decide) (by decide) (by decide) (by decide) (by decide)
    (by decide)

end LokoOS.Kernel
