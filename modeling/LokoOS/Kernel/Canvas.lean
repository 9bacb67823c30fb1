import Mathlib.Data.List.GetD
import LokoOS.Kernel.Framebuffer

/-!
# Drawing is painting

`kernel/loko-kernel/src/framebuffer.rs:98–163`. A drawing program is a list of calls of the
drawing routines. What it leaves in memory is a picture, in which every pixel has the colour of
the last call that covers it.
-/

namespace LokoOS.Kernel
open LokoOS.Base LokoOS.BootProtocol

/-- The colours of the pixels that have been drawn. -/
abbrev Picture : Type := Nat → Nat → Option Colour

/-- One picture painted over another. -/
def Picture.over (top bottom : Picture) : Picture := fun x y ↦ (top x y).or (bottom x y)

/-- The pixel whose cell holds the byte at an address, with the place of the byte in the cell. -/
def cellAt (fb : Framebuffer) (a : Nat) : Option (Nat × Nat × Nat) :=
  let column := (a - fb.base) % fb.strideBytes
  let row := (a - fb.base) / fb.strideBytes
  if fb.base ≤ a ∧ fb.Visible (column / 4) row ∧ fb.Stored (column / 4) row then
    some (column / 4, row, column % 4)
  else none

/-- Memory with a picture in the buffer. -/
def display (fb : Framebuffer) (picture : Picture) (m : Memory) : Memory := fun a ↦
  match cellAt fb a with
  | none => m a
  | some (x, y, k) =>
    match picture x y with
    | none => m a
    | some colour => (colour.toBytes fb.format).getD k 0

/-- A call of a drawing routine. -/
inductive Stroke
  | fillRect (x y width height : Nat) (colour : Colour)
  | clear (colour : Colour)
  | stopScreen
  deriving DecidableEq, Repr

/-- Make one call. -/
def Stroke.draw (surface : Option Framebuffer) : Stroke → Drawing
  | fillRect x y width height colour => Kernel.fillRect surface x y width height colour
  | clear colour => Kernel.clear surface colour
  | stopScreen => Kernel.stopScreen surface

/-- Make the calls in order. -/
def paint (surface : Option Framebuffer) (strokes : List Stroke) : Drawing :=
  Proc.forEach strokes (Stroke.draw surface)

/-- A rectangle in one colour. -/
def Picture.rectangle (x y width height : Nat) (colour : Colour) : Picture := fun px py ↦
  if x ≤ px ∧ px < x + width ∧ y ≤ py ∧ py < y + height then some colour else none

/-- What one call is meant to draw. -/
def Stroke.picture (fb : Framebuffer) : Stroke → Picture
  | fillRect x y width height colour => .rectangle x y width height colour
  | clear colour => fun _ _ ↦ some colour
  | stopScreen =>
    (Picture.rectangle ((fb.width - fb.width / 3) / 2) (fb.height / 3) (fb.width / 3)
      (max (fb.height / 120) 3) .stopAccent).over fun _ _ ↦ some .stopBackground

/-- What a program is meant to draw: each pixel has the colour of the last call that covers
it. -/
def picture (fb : Framebuffer) (strokes : List Stroke) : Picture := fun x y ↦
  strokes.reverse.findSome? fun stroke ↦ stroke.picture fb x y

variable {fb : Framebuffer} {colour : Colour} {pixels : Nat → Nat → Prop} {m m' : Memory}
  {top bottom : Picture} {a x y k : Nat} {stroke : Stroke} {strokes : List Stroke}

/-! ### One picture in memory -/

private theorem SeparateRows.cellAt_eq_some (hr : SeparateRows fb) : cellAt fb a = some (x, y, k) ↔
    fb.Visible x y ∧ fb.Stored x y ∧ k < 4 ∧ a = fb.base + fb.offsetOf x y + k := by
  unfold cellAt
  constructor
  · intro h
    simp only at h
    split at h
    · next hcell =>
      obtain ⟨hbase, hv, hs⟩ := hcell
      have hdiv := Nat.div_add_mod' (a - fb.base) fb.strideBytes
      cases h
      refine ⟨hv, hs, Nat.mod_lt _ (by decide), ?_⟩
      unfold Framebuffer.offsetOf
      omega
    · cases h
  · rintro ⟨hv, hs, hk, rfl⟩
    have hx := hv.1
    have hstride := hr.stride
    have hoffset : fb.base + fb.offsetOf x y + k - fb.base = 4 * x + k + fb.strideBytes * y := by
      rw [Framebuffer.offsetOf, Nat.mul_comm y]
      omega
    obtain ⟨hdiv, hmod⟩ := (Nat.div_mod_unique (a := fb.base + fb.offsetOf x y + k - fb.base)
      (b := fb.strideBytes) (c := 4 * x + k) (d := y) (by omega)).mpr ⟨hoffset.symm, by omega⟩
    have hcolumn : (4 * x + k) / 4 = x := by omega
    have hbyte : (4 * x + k) % 4 = k := by omega
    simp only [hdiv, hmod, hcolumn, hbyte]
    exact if_pos ⟨by omega, hv, hs⟩

private theorem Painted.eq_display (hr : SeparateRows fb) (h : Painted fb colour pixels m m')
    (hin : ∀ x y, fb.Visible x y → pixels x y → top x y = some colour)
    (hout : ∀ x y, fb.Visible x y → ¬ pixels x y → top x y = none) : m' = display fb top m := by
  funext a
  unfold display
  cases hcell : cellAt fb a with
  | none =>
    apply h.kept
    intro x y _ hv hs
    by_contra hbetween
    have hsome : cellAt fb a = some (x, y, a - (fb.base + fb.offsetOf x y)) :=
      hr.cellAt_eq_some.mpr ⟨hv, hs, by omega, by omega⟩
    rw [hcell] at hsome
    cases hsome
  | some cell =>
    obtain ⟨x, y, k⟩ := cell
    obtain ⟨hv, hs, hk, rfl⟩ := hr.cellAt_eq_some.mp hcell
    by_cases hp : pixels x y
    · have hload := h.drawn x y hp hv hs
      simp only [hin x y hv hp]
      simp [← hload, Memory.load, List.getD_eq_getElem?_getD, hk]
    · simp only [hout x y hv hp]
      apply h.kept
      intro qx qy hq hqv _
      have hapart := hr.disjoint hqv hv fun hsame ↦ hp (by rwa [← hsame.1, ← hsame.2])
      omega

private theorem display_display :
    display fb top (display fb bottom m) = display fb (top.over bottom) m := by
  funext a
  unfold display Picture.over
  cases cellAt fb a with
  | none => rfl
  | some cell => cases htop : top cell.1 cell.2.1 <;> simp [htop]

/-! ### Programs -/

/-- One call displays its picture. -/
theorem Stroke.draw_eq (hr : SeparateRows fb) (stroke : Stroke) (m : Memory) :
    stroke.draw (some fb) m = some (.ok (), display fb (stroke.picture fb) m) := by
  have hrect (x y width height : Nat) (colour : Colour) (m : Memory) :
      Kernel.fillRect (some fb) x y width height colour m =
        some (.ok (), display fb (.rectangle x y width height colour) m) := by
    obtain ⟨m', hfill, hp⟩ := fillRect_painted hr x y width height colour m
    have hshown : m' = display fb (.rectangle x y width height colour) m :=
      hp.eq_display hr (fun _ _ _ hin ↦ if_pos hin) fun _ _ _ hout ↦ if_neg hout
    rw [hfill, hshown]
  have hclear (colour : Colour) (m : Memory) : Kernel.clear (some fb) colour m =
      some (.ok (), display fb (fun _ _ ↦ some colour) m) := by
    obtain ⟨m', hfill, hp⟩ := clear_painted hr colour m
    rw [hfill, hp.eq_display hr (fun _ _ _ _ ↦ rfl) fun _ _ hv hout ↦ absurd hv hout]
  cases stroke with
  | fillRect x y width height colour => exact hrect x y width height colour m
  | clear colour => exact hclear colour m
  | stopScreen =>
    change Kernel.stopScreen (some fb) m = _
    rw [Kernel.stopScreen, Proc.run_bind_ok (hclear _ m), hrect, display_display]
    rfl

private theorem picture_cons :
    picture fb (stroke :: strokes) = (picture fb strokes).over (stroke.picture fb) := by
  funext x y
  unfold picture Picture.over
  rw [List.reverse_cons, List.findSome?_append]
  simp

/-- A program displays its picture. -/
theorem paint_eq (hr : SeparateRows fb) (strokes : List Stroke) (m : Memory) :
    paint (some fb) strokes m = some (.ok (), display fb (picture fb strokes) m) := by
  induction strokes generalizing m with
  | nil =>
    have hblank : display fb (picture fb []) m = m := by
      funext a
      unfold display picture
      cases cellAt fb a <;> rfl
    rw [hblank]
    rfl
  | cons stroke strokes ih =>
    change (stroke.draw (some fb) >>= fun _ ↦ paint (some fb) strokes) m = _
    rw [Proc.run_bind_ok (stroke.draw_eq hr m), ih, display_display, picture_cons]

private theorem picture_stopScreen :
    picture fb (strokes ++ [.stopScreen]) = picture fb [.stopScreen] := by
  funext x y
  unfold picture
  rw [List.reverse_append, List.findSome?_append]
  simp [Stroke.picture, Picture.over]

/-- Whatever calls are made, in any order, every pixel whose cell is in the buffer ends with the
colour of the last call that covers it, a pixel that no call covers and every byte outside the
cells keep what they held, and the stop screen looks the same whatever was drawn before. -/
theorem paint_shows (hr : SeparateRows fb) (strokes : List Stroke) (m : Memory) :
    (∃ m', paint (some fb) strokes m = some (.ok (), m') ∧
      (∀ x y, fb.Visible x y → fb.Stored x y →
        m'.load (fb.base + fb.offsetOf x y) 4 =
          match strokes.reverse.findSome? fun stroke ↦ stroke.picture fb x y with
          | some colour => colour.toBytes fb.format
          | none => m.load (fb.base + fb.offsetOf x y) 4) ∧
      ∀ a, (∀ x y, fb.Visible x y → fb.Stored x y →
        a < fb.base + fb.offsetOf x y ∨ fb.base + fb.offsetOf x y + 4 ≤ a) → m' a = m a) ∧
    paint (some fb) (strokes ++ [.stopScreen]) m = stopScreen (some fb) m := by
  refine ⟨⟨_, paint_eq hr strokes m, fun x y hv hs ↦ ?_, fun a ha ↦ ?_⟩, ?_⟩
  · change _ = match picture fb strokes x y with | some _ => _ | none => _
    have hbyte : ∀ k < 4, cellAt fb (fb.base + fb.offsetOf x y + k) = some (x, y, k) :=
      fun k hk ↦ hr.cellAt_eq_some.mpr ⟨hv, hs, hk, rfl⟩
    cases hpicture : picture fb strokes x y with
    | none =>
      apply Memory.load_congr
      intro k hk
      simp only [display, hbyte k hk, hpicture]
    | some colour =>
      have hlen := colour.length_toBytes fb.format
      apply List.ext_getElem (by rw [Memory.length_load, hlen])
      intro k hk hk'
      rw [Memory.length_load] at hk
      simp only [Memory.load, List.getElem_map, List.getElem_range, display, hbyte k hk, hpicture]
      exact List.getD_eq_getElem _ _ hk'
  · unfold display
    cases hcell : cellAt fb a with
    | none => rfl
    | some cell =>
      obtain ⟨hv, hs, hk, rfl⟩ := hr.cellAt_eq_some.mp hcell
      have := ha _ _ hv hs
      omega
  · change _ = Stroke.stopScreen.draw (some fb) m
    rw [paint_eq hr, picture_stopScreen, ← paint_eq hr]
    change (Stroke.stopScreen.draw (some fb) >>= fun _ ↦ paint (some fb) []) m = _
    rw [Stroke.draw_eq hr, Proc.run_bind_ok (Stroke.draw_eq hr _ _)]
    rfl

/-- A screen of four pixels whose buffer ends one byte short of the last. -/
def shortFramebuffer : Framebuffer := ⟨0x1000, 23, 2, 2, 16, .rgbx8888⟩

/-- On that screen a white bar is drawn over a cleared background, and the last pixel is left
out. -/
theorem paint_shows_short :
    ∃ m', paint (some shortFramebuffer)
        [.stopScreen, .clear ⟨1, 2, 3⟩, .fillRect 1 0 5 2 ⟨255, 255, 255⟩] (fun _ ↦ 7) =
          some (.ok (), m') ∧
      m'.load 0x1000 4 = [1, 2, 3, 0] ∧ m'.load 0x1004 4 = [255, 255, 255, 0] ∧
      m' 0x1014 = 7 := by
  have hr : SeparateRows shortFramebuffer :=
    ⟨⟨by decide, by decide, by decide, by decide, by decide⟩, by decide⟩
  obtain ⟨⟨m', hpaint, hin, hout⟩, -⟩ := paint_shows hr
    [.stopScreen, .clear ⟨1, 2, 3⟩, .fillRect 1 0 5 2 ⟨255, 255, 255⟩] (fun _ ↦ 7)
  refine ⟨m', hpaint, hin 0 0 (by decide) (by decide), hin 1 0 (by decide) (by decide),
    hout _ fun x y hv hs ↦ ?_⟩
  simp only [Framebuffer.Visible, Framebuffer.Stored, Framebuffer.offsetOf,
    shortFramebuffer] at *
  omega

end LokoOS.Kernel
